import Etpan.Imap.StatusParse

namespace Etpan.Imap

open Etpan.Data Etpan.Stream

/-! The parsers go forward: the octets before the index are not touched, although a literal
rewrites the buffer behind it. -/

structure Reached (buffer : List UInt8) (indx curToken : Nat) : Prop where
  forward : indx ≤ curToken
  inside : curToken ≤ buffer.length

section Buffer

variable {buffer : List UInt8} {indx curToken : Nat}

theorem Reached.refl (inside : indx ≤ buffer.length) : Reached buffer indx indx := ⟨Nat.le_refl _, inside⟩

theorem Reached.trans {nextToken : Nat} (first : Reached buffer indx curToken)
    (second : Reached buffer curToken nextToken) : Reached buffer indx nextToken :=
  ⟨first.forward.trans second.forward, second.inside⟩

theorem reached_takeWhile (inside : indx ≤ buffer.length) (isMember : UInt8 → Bool) :
    Reached buffer indx (indx + ((buffer.drop indx).takeWhile isMember).length) := by
  have shorter := (List.takeWhile_prefix isMember (l := buffer.drop indx)).length_le
  rw [List.length_drop] at shorter
  exact ⟨by omega, by omega⟩

theorem mailimapSpaceParse_reached (inside : indx ≤ buffer.length) (found : mailimapSpaceParse buffer indx = some curToken) :
    Reached buffer indx curToken := by
  rw [mailimapSpaceParse] at found
  split_ifs at found
  cases found
  exact reached_takeWhile inside isSpaceOrTab

theorem skipSpace_reached (inside : indx ≤ buffer.length) : Reached buffer indx (skipSpace buffer indx) := by
  rw [skipSpace]
  cases found : mailimapSpaceParse buffer indx with
  | none => exact .refl inside
  | some curToken => exact mailimapSpaceParse_reached inside found

theorem mailimapCharParse_reached {token : UInt8} (found : mailimapCharParse buffer indx token = some curToken) :
    Reached buffer indx curToken := by
  rw [mailimapCharParse] at found
  split_ifs at found with isToken
  cases found
  obtain ⟨inside, -⟩ := List.getElem?_eq_some_iff.mp isToken
  exact ⟨by omega, by omega⟩

theorem mailimapUnstrictCharParse_reached {token : UInt8} (inside : indx ≤ buffer.length)
    (found : mailimapUnstrictCharParse buffer indx token = some curToken) : Reached buffer indx curToken := by
  have skipped := skipSpace_reached inside
  rw [mailimapUnstrictCharParse] at found
  split_ifs at found
  · cases found
    exact skipped
  · exact skipped.trans (mailimapCharParse_reached found)

theorem mailimapTokenCaseInsensitiveParse_reached {token : List UInt8} (inside : indx ≤ buffer.length)
    (found : mailimapTokenCaseInsensitiveParse buffer indx token = some curToken) : Reached buffer indx curToken := by
  have skipped := skipSpace_reached inside
  rw [mailimapTokenCaseInsensitiveParse] at found
  split_ifs at found with matched
  cases found
  obtain ⟨-, fits, -⟩ := matched
  have bound := skipped.inside
  exact skipped.trans ⟨by omega, by omega⟩

theorem mailimapCrlfParse_reached (inside : indx ≤ buffer.length) (found : mailimapCrlfParse buffer indx = some curToken) :
    Reached buffer indx curToken := by
  have skipped := skipSpace_reached inside
  rw [mailimapCrlfParse] at found
  cases token : mailimapTokenCaseInsensitiveParse buffer (skipSpace buffer indx) [CR, LF] with
  | some next =>
      simp only [token] at found
      cases found
      exact skipped.trans (mailimapTokenCaseInsensitiveParse_reached skipped.inside token)
  | none =>
      simp only [token] at found
      exact skipped.trans (mailimapUnstrictCharParse_reached skipped.inside found)

theorem mailimapNumberParse_reached {number : UInt32} (inside : indx ≤ buffer.length)
    (found : mailimapNumberParse buffer indx = some (number, curToken)) : Reached buffer indx curToken := by
  have skipped := skipSpace_reached inside
  have signed : Reached buffer indx
      ((mailimapCharParse buffer (skipSpace buffer indx) (ascii '-')).getD (skipSpace buffer indx)) := by
    cases negative : mailimapCharParse buffer (skipSpace buffer indx) (ascii '-') with
    | none => exact skipped
    | some next => exact skipped.trans (mailimapCharParse_reached negative)
  have behind := reached_takeWhile signed.inside isDigit
  simp only [mailimapNumberParse] at found
  split_ifs at found
  all_goals
    rw [Option.some.injEq, Prod.mk.injEq] at found
    rw [← found.2]
    exact signed.trans behind

theorem mailimapCustomStringParse_reached {isCustomChar : UInt8 → Bool} {string : List UInt8}
    (inside : indx ≤ buffer.length) (found : mailimapCustomStringParse isCustomChar buffer indx = some (string, curToken)) :
    Reached buffer indx curToken := by
  have skipped := skipSpace_reached inside
  rw [mailimapCustomStringParse] at found
  split_ifs at found
  cases found
  exact skipped.trans (reached_takeWhile skipped.inside isCustomChar)

theorem mailimapQuotedSpecialsParse_reached {ch : UInt8}
    (found : mailimapQuotedSpecialsParse buffer indx = some (ch, curToken)) : Reached buffer indx curToken := by
  rw [mailimapQuotedSpecialsParse] at found
  cases first : buffer[indx]? with
  | none => simp [first] at found
  | some byte =>
      obtain ⟨inside, -⟩ := List.getElem?_eq_some_iff.mp first
      simp only [first] at found
      split_ifs at found
      cases found
      exact ⟨by omega, by omega⟩

theorem mailimapQuotedCharParse_reached {ch : UInt8}
    (found : mailimapQuotedCharParse buffer indx = some (ch, curToken)) : Reached buffer indx curToken := by
  rw [mailimapQuotedCharParse] at found
  cases first : buffer[indx]? with
  | none => simp [first] at found
  | some byte =>
      obtain ⟨inside, -⟩ := List.getElem?_eq_some_iff.mp first
      simp only [first] at found
      split_ifs at found
      · cases found
        exact ⟨by omega, by omega⟩
      · cases second : mailimapQuotedSpecialsParse buffer (indx + 1) with
        | none =>
            simp only [second] at found
            cases found
            exact ⟨by omega, by omega⟩
        | some special =>
            simp only [second] at found
            cases found
            have behind := mailimapQuotedSpecialsParse_reached second
            exact ⟨Nat.le_of_succ_le behind.forward, behind.inside⟩

theorem literalHead_reached {value : UInt32} {opened afterNumber closed numberToken : Nat} {number : UInt32}
    (first : Reached buffer indx opened) (second : Reached buffer opened afterNumber)
    (close_ : mailimapCaccoladeParse buffer afterNumber = some closed)
    (checked : (if value.toNat > mailimapLiteralSizeMax then none
      else some (opened, value, match mailimapCrlfParse buffer closed with
        | some curToken => curToken
        | none => skipSpace buffer (skipSpace buffer closed))) = some (numberToken, number, curToken)) :
    Reached buffer indx numberToken ∧ Reached buffer indx curToken := by
  have third : Reached buffer afterNumber closed := mailimapUnstrictCharParse_reached second.inside close_
  have toEnd := (first.trans second).trans third
  split_ifs at checked
  rw [Option.some.injEq, Prod.mk.injEq, Prod.mk.injEq] at checked
  obtain ⟨rfl, -, rfl⟩ := checked
  refine ⟨first, toEnd.trans ?_⟩
  cases ended : mailimapCrlfParse buffer closed with
  | some afterCrlf => exact mailimapCrlfParse_reached toEnd.inside ended
  | none =>
      have blank := skipSpace_reached toEnd.inside
      exact blank.trans (skipSpace_reached blank.inside)

theorem literalHeadParse_reached {numberToken : Nat} {number : UInt32} (inside : indx ≤ buffer.length)
    (found : literalHeadParse buffer indx = some (numberToken, number, curToken)) :
    Reached buffer indx numberToken ∧ Reached buffer indx curToken := by
  simp only [literalHeadParse, Option.bind_eq_bind, Option.bind_eq_some_iff] at found
  obtain ⟨opened, open_, numbered⟩ := found
  have first : Reached buffer indx opened := mailimapUnstrictCharParse_reached inside open_
  -- the number was read at once or behind a minus sign
  cases direct : mailimapNumberParse buffer opened with
  | some found =>
      simp only [direct, Option.bind_some, Option.bind_eq_some_iff] at numbered
      obtain ⟨closed, close_, checked⟩ := numbered
      exact literalHead_reached first (mailimapNumberParse_reached first.inside direct) close_ checked
  | none =>
      simp only [direct, Option.bind_some, Option.bind_eq_some_iff] at numbered
      obtain ⟨afterMinus, minus, ⟨_, afterDigits⟩, digits, closed, close_, checked⟩ := numbered
      have sign : Reached buffer opened afterMinus := mailimapUnstrictCharParse_reached first.inside minus
      exact literalHead_reached first (sign.trans (mailimapNumberParse_reached sign.inside digits)) close_ checked

end Buffer

/-! ### Parsers that use the stream -/

theorem mailstreamReadLineAppend_prefix (s : Mailstream) (line : List UInt8) {buffer : List UInt8}
    (read : (mailstreamReadLineAppend s line).1 = some buffer) : line <+: buffer := by
  fun_induction mailstreamReadLineAppend s line with
  | case1 s line nonempty i found =>
      simp only [mailstreamReadLenAppend, Option.map_eq_some_iff] at read
      obtain ⟨bytes, -, rfl⟩ := read
      exact List.prefix_append _ _
  | case2 s line nonempty absent all failed => cases read
  | case3 s line nonempty absent all longer grown ih =>
      simp only [all, mailstreamReadLenAppend, Option.map_eq_some_iff] at grown
      obtain ⟨bytes, -, rfl⟩ := grown
      exact (List.prefix_append _ _).trans (ih read)
  | case4 s line empty fed failed => cases read
  | case5 s line empty fed failed ended =>
      cases read
      exact List.prefix_rfl
  | case6 s line empty fed failed ended ih => exact ih read

/-- A parse that kept the octets before the index and did not go back. -/
structure KeptFront {α : Type} (buffer : List UInt8) (indx : Nat) (result : Except ParseError (α × Nat) × Source) : Prop where
  front : buffer.take indx <+: result.2.buffer
  reached : ∀ value curToken, result.1 = .ok (value, curToken) → Reached result.2.buffer indx curToken

def KeepsFront {α : Type} (parser : Parser α) : Prop :=
  ∀ source indx, indx ≤ source.buffer.length → KeptFront source.buffer indx (parser source indx)

section Parsers

variable {α β : Type} {buffer : List UInt8} {source after : Source} {indx curToken : Nat}

theorem KeptFront.error (front : buffer.take indx <+: after.buffer) (reason : ParseError) :
    KeptFront (α := α) buffer indx (.error reason, after) :=
  ⟨front, nofun⟩

theorem KeptFront.ok {value : α} (front : buffer.take indx <+: after.buffer)
    (reached : Reached after.buffer indx curToken) : KeptFront buffer indx (.ok (value, curToken), after) := by
  refine ⟨front, fun other token same => ?_⟩
  cases same
  exact reached

theorem KeptFront.stopped (reason : ParseError) (fd : Option Mailstream) :
    KeptFront (α := α) buffer indx (.error reason, ⟨buffer, fd⟩) :=
  ⟨List.take_prefix _ _, nofun⟩

theorem KeptFront.moved {value : α} {fd : Option Mailstream} (reached : Reached buffer indx curToken) :
    KeptFront buffer indx (.ok (value, curToken), ⟨buffer, fd⟩) :=
  .ok (List.take_prefix _ _) reached

theorem KeptFront.trans {result : Except ParseError (β × Nat) × Source} {value : α}
    (first : KeptFront buffer indx (.ok (value, curToken), after))
    (second : KeptFront after.buffer curToken result) : KeptFront buffer indx result := by
  have reached := first.reached value curToken rfl
  have longer : buffer.take indx <+: after.buffer.take curToken := by
    rw [List.prefix_take_iff]
    refine ⟨first.front, ?_⟩
    rw [List.length_take]
    exact (min_le_left _ _).trans reached.forward
  refine ⟨longer.trans second.front, fun other token same => ?_⟩
  have later := second.reached other token same
  exact ⟨reached.forward.trans later.forward, later.inside⟩

theorem KeptFront.grown {longer : List UInt8} {result : Except ParseError (α × Nat) × Source}
    (inside : indx ≤ buffer.length) (grown : buffer <+: longer) (kept : KeptFront longer indx result) :
    KeptFront buffer indx result := by
  have same : longer.take indx = buffer.take indx := by
    obtain ⟨more, whole⟩ := grown
    rw [← whole, List.take_append_of_le_length inside]
  exact ⟨same ▸ kept.front, kept.reached⟩

theorem quotedTurn_keptFront {turns : Nat}
    (ih : ∀ source curToken quoted, curToken ≤ source.buffer.length →
      KeptFront source.buffer curToken (quotedLoop turns source curToken quoted)) (filled : Source) (curToken : Nat) (quoted : List UInt8) :
    KeptFront filled.buffer curToken
      (match mailimapQuotedCharParse filled.buffer curToken with
        | some (ch, curToken) => quotedLoop turns filled curToken (quoted ++ [ch])
        | none =>
            match mailimapDquoteParse filled.buffer curToken with
            | some curToken => (.ok (quoted, curToken), filled)
            | none => (.error .parse, filled)) := by
  cases next : mailimapQuotedCharParse filled.buffer curToken with
  | some found =>
      have reached := mailimapQuotedCharParse_reached next
      have passed : KeptFront filled.buffer curToken (.ok (found.1, found.2), filled) := .moved reached
      exact passed.trans (ih filled found.2 _ reached.inside)
  | none =>
      cases closing : mailimapDquoteParse filled.buffer curToken with
      | some token => exact .moved (mailimapCharParse_reached closing)
      | none => exact .stopped _ _

theorem quotedLoop_keptFront (turns : Nat) (source : Source) (curToken : Nat) (quoted : List UInt8)
    (inside : curToken ≤ source.buffer.length) :
    KeptFront source.buffer curToken (quotedLoop turns source curToken quoted) := by
  induction turns generalizing source curToken quoted with
  | zero => exact .stopped _ _
  | succ turns ih =>
      rw [quotedLoop]
      by_cases exhausted : curToken ≥ source.buffer.length
      · cases source.fd with
        | none =>
            simp only [if_pos exhausted]
            exact .stopped _ _
        | some s =>
            cases read : (mailstreamReadLineAppend s source.buffer).1 with
            | none =>
                simp only [if_pos exhausted, read]
                exact .stopped _ _
            | some buffer =>
                have grown := mailstreamReadLineAppend_prefix s source.buffer read
                simp only [if_pos exhausted, read]
                exact .grown inside grown (quotedTurn_keptFront ih ⟨buffer, _⟩ curToken quoted)
      · simp only [if_neg exhausted]
        exact quotedTurn_keptFront ih source curToken quoted

theorem mailimapQuotedParse_keepsFront : KeepsFront mailimapQuotedParse := by
  intro source indx inside
  have skipped := skipSpace_reached inside
  rw [mailimapQuotedParse]
  cases opening : mailimapDquoteParse source.buffer (skipSpace source.buffer indx) with
  | none => exact .stopped _ _
  | some curToken =>
      have reached := skipped.trans (mailimapCharParse_reached opening)
      have passed : KeptFront source.buffer indx (.ok ((), curToken), source) := .moved reached
      exact passed.trans (quotedLoop_keptFront _ source curToken [] reached.inside)

theorem appendFollowingLine_keptFront (source : Source) (literal : List UInt8) (inside : curToken ≤ source.buffer.length) :
    KeptFront source.buffer curToken (appendFollowingLine source curToken literal) := by
  rw [appendFollowingLine]
  cases source.fd with
  | none =>
      dsimp only
      split_ifs
      · exact .moved (.refl inside)
      · exact .stopped _ _
  | some s =>
      cases read : (mailstreamReadLineAppend s source.buffer).1 with
      | none =>
          simp only [read]
          exact .stopped _ _
      | some buffer =>
          have grown := mailstreamReadLineAppend_prefix s source.buffer read
          simp only [read]
          exact .ok ((List.take_prefix _ _).trans grown) (.refl (inside.trans grown.length_le))

theorem mailimapLiteralParse_keepsFront (ctx : ParserContext) : KeepsFront (mailimapLiteralParse ctx) := by
  intro source indx inside
  rw [mailimapLiteralParse]
  cases head : literalHeadParse source.buffer indx with
  | none => exact .stopped _ _
  | some found =>
      obtain ⟨numberToken, number, curToken⟩ := found
      obtain ⟨numbered, headed⟩ := literalHeadParse_reached inside head
      have bound : (source.buffer.length - curToken) % 2 ^ 32 ≤ source.buffer.length - curToken := Nat.mod_le _ _
      have fits := headed.inside
      dsimp only
      split_ifs with whole
      · have passed : KeptFront source.buffer indx (.ok ((), curToken + number.toNat), source) :=
          .moved ⟨headed.forward.trans (by omega), by omega⟩
        exact passed.trans (appendFollowingLine_keptFront source _ (by omega))
      · cases source.fd with
        | none => exact .stopped _ _
        | some s =>
            cases read : (readLiteral ctx s (number.toNat - (source.buffer.length - curToken) % 2 ^ 32)
                ((source.buffer.drop curToken).take ((source.buffer.length - curToken) % 2 ^ 32))).1 with
            | error reason =>
                simp only [read]
                exact .stopped _ _
            | ok literal =>
                simp only [read]
                have rewritten : (source.buffer.take numberToken ++ [ascii '0', ascii '}', CR, LF]).length =
                    numberToken + 4 := by
                  rw [List.length_append, List.length_take, min_eq_left numbered.inside]
                  rfl
                have front : source.buffer.take indx <+: source.buffer.take numberToken :=
                  List.take_prefix_take_left numbered.forward
                have reached : Reached (source.buffer.take numberToken ++ [ascii '0', ascii '}', CR, LF]) indx
                    (numberToken + 4) := ⟨numbered.forward.trans (by omega), by omega⟩
                have passed : ∀ fd, KeptFront source.buffer indx (.ok ((), numberToken + 4),
                    ⟨source.buffer.take numberToken ++ [ascii '0', ascii '}', CR, LF], fd⟩) := fun fd =>
                  .ok (front.trans (List.prefix_append _ _)) reached
                exact (passed _).trans (appendFollowingLine_keptFront ⟨_, _⟩ literal reached.inside)

/-- An error of the first parser that lets a second one try leaves the buffer as it grew. -/
theorem KeptFront.retry {result : Except ParseError (β × Nat) × Source} {reason : ParseError}
    (inside : indx ≤ buffer.length) (first : KeptFront (α := α) buffer indx (.error reason, after))
    (second : KeptFront after.buffer indx result) : KeptFront buffer indx result := by
  have same : after.buffer.take indx = buffer.take indx := by
    obtain ⟨more, whole⟩ := first.front
    rw [← whole, List.take_append_of_le_length (by rw [List.length_take, min_eq_left inside]), List.take_take, Nat.min_self]
  exact ⟨same ▸ second.front, second.reached⟩

theorem KeptFront.inside (first : KeptFront (α := α) buffer indx (.error .parse, after)) (inside : indx ≤ buffer.length) :
    indx ≤ after.buffer.length := by
  have length := first.front.length_le
  rw [List.length_take, min_eq_left inside] at length
  exact length

theorem mailimapStringParse_keepsFront (ctx : ParserContext) : KeepsFront (mailimapStringParse ctx) := by
  intro source indx inside
  have quoted := mailimapQuotedParse_keepsFront source indx inside
  rw [mailimapStringParse]
  revert quoted
  rcases mailimapQuotedParse source indx with ⟨reason | ⟨string, curToken⟩, after⟩
  all_goals intro quoted
  · cases reason with
    | parse =>
        have literal := mailimapLiteralParse_keepsFront ctx after indx (quoted.inside inside)
        dsimp only
        revert literal
        rcases mailimapLiteralParse ctx after indx with ⟨failed | ⟨string, curToken⟩, last⟩
        all_goals intro literal
        · exact quoted.retry inside (.error literal.front failed)
        · exact quoted.retry inside (.ok literal.front (literal.reached _ _ rfl))
    | stream => exact .error quoted.front _
    | needsMoreData => exact .error quoted.front _
  · exact .ok quoted.front (quoted.reached _ _ rfl)

theorem mailimapAstringParse_keepsFront (ctx : ParserContext) : KeepsFront (mailimapAstringParse ctx) := by
  intro source indx inside
  rw [mailimapAstringParse]
  cases atom : mailimapAtomAstringParse source.buffer indx with
  | some found => exact .moved (mailimapCustomStringParse_reached inside atom)
  | none =>
      have string := mailimapStringParse_keepsFront ctx source indx inside
      dsimp only
      revert string
      rcases mailimapStringParse ctx source indx with ⟨reason | ⟨⟨astring, _⟩, curToken⟩, after⟩
      all_goals intro string
      · exact .error string.front _
      · exact .ok string.front (string.reached _ _ rfl)

theorem structListLoop_keptFront {parser : Parser α} (keeps : KeepsFront parser) {symbol : UInt8} (turns : Nat)
    (source : Source) {curToken finalToken : Nat} (structList : List α)
    (inside : curToken ≤ source.buffer.length) (final : finalToken ≤ curToken) :
    KeptFront source.buffer finalToken (structListLoop symbol parser turns source curToken structList finalToken) := by
  induction turns generalizing source curToken finalToken structList with
  | zero => exact .moved (.refl (final.trans inside))
  | succ turns ih =>
      rw [structListLoop]
      cases separator : mailimapUnstrictCharParse source.buffer curToken symbol with
      | none => exact .moved (.refl (final.trans inside))
      | some token =>
          have skipped := mailimapUnstrictCharParse_reached inside separator
          have behind : Reached source.buffer finalToken token := ⟨final.trans skipped.forward, skipped.inside⟩
          have passed : KeptFront source.buffer finalToken (.ok ((), token), source) := .moved behind
          have item := keeps source token skipped.inside
          dsimp only
          revert item
          rcases parser source token with ⟨reason | ⟨value, next⟩, after⟩
          all_goals intro item
          · have stopped := passed.trans item
            cases reason with
            | parse => exact .ok stopped.front (.refl (stopped.inside (final.trans inside)))
            | stream => exact .error stopped.front _
            | needsMoreData => exact .error stopped.front _
          · have later := ih after (structList ++ [value]) (item.reached value next rfl).inside (Nat.le_refl next)
            exact (passed.trans item).trans later

end Parsers

end Etpan.Imap
