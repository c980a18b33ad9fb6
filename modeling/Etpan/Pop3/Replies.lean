import Etpan.Data.Decimal
import Etpan.Data.Abnf
import Etpan.Data.Loop
import Etpan.DataTypes.Carray
import Etpan.Stream.ReadLine

namespace Etpan.Pop3

open Etpan.Data Etpan.Stream Etpan.DataTypes

/-! What `low-level/pop3/mailpop3.c` makes of the lines of a server.

A line is the buffer of the line reader; the functions take it as a C string.
`readLine` is read_line and `none` its NULL. -/

abbrev Line := List UInt8

/-! ### The functions of the C library -/

def isSpace (byte : UInt8) : Bool := byte = ascii ' ' || (9 ≤ byte && byte ≤ 13)

/-- A sign, the digits and what follows them, or `none` where there is no digit to convert. -/
def scanInteger (text : Line) : Option (Bool × Line × Line) :=
  let unspaced := text.dropWhile isSpace
  let negative := decide (unspaced.head? = some (ascii '-'))
  let signed := negative || decide (unspaced.head? = some (ascii '+'))
  let unsigned := if signed then unspaced.tail else unspaced
  let digits := unsigned.takeWhile isDigit
  if digits = [] then none else some (negative, digits, unsigned.dropWhile isDigit)

/-- The value and the rest of the text; `none` is ERANGE or a text without a number. -/
def strtoul (text : Line) : Option (Nat × Line) :=
  match scanInteger text with
  | none => none
  | some (negative, digits, rest) =>
      let value := decimalValue digits
      if value < 2 ^ 64 then some (if negative then (2 ^ 64 - value) % 2 ^ 64 else value, rest) else none

def strtol (text : Line) : Int :=
  match scanInteger text with
  | none => 0
  | some (negative, digits, _) =>
      let value : Int := if negative then -decimalValue digits else decimalValue digits
      max (-2 ^ 63) (min value (2 ^ 63 - 1))

structure MsgInfo where
  msgIndex : UInt32
  msgSize : UInt32
  msgUidl : Option Line
  msgDeleted : Bool

def msgInfoNew (indx size : UInt32) (uidl : Option Line) : MsgInfo := ⟨indx, size, uidl, false⟩

def msgIndexParse (line : Line) : Option (UInt32 × Line) :=
  if line.head? = some (ascii '-') then none
  else
    match strtoul line with
    | none => none
    | some (value, rest) => if value < 1 ∨ value > Carray.UINT_MAX.toNat then none else some (UInt32.ofNat value, rest)

def isBlank (byte : UInt8) : Bool := byte = ascii ' ' || byte = 9

def parseSpace (line : Line) : Option Line :=
  let rest := line.dropWhile isBlank
  if rest = line then none else some rest

/-- The token and what follows the blank that ends it. -/
def cutToken (line : Line) : Line × Option Line :=
  match line.dropWhile (fun byte => !isBlank byte) with
  | [] => (line, none)
  | _ :: next => (line.takeWhile (fun byte => !isBlank byte), some next)

theorem cutToken_shorter {line next : Line} (cut : (cutToken line).2 = some next) : next.length < line.length := by
  unfold cutToken at cut
  split at cut
  · simp at cut
  · next blank rest found =>
      have shorter : (line.dropWhile fun byte => !isBlank byte).length ≤ line.length :=
        (List.dropWhile_suffix _).length_le
      rw [found, List.length_cons] at shorter
      simp only [Option.some.injEq] at cut
      subst cut
      omega

/-- The loop over `next_token`. -/
def paramTokens (line : Line) : List Line :=
  match _cut : (cutToken line).2 with
  | none => [(cutToken line).1]
  | some next => (cutToken line).1 :: paramTokens next
termination_by line.length
decreasing_by exact cutToken_shorter _cut

inductive ResponseStatus where
  | ok | err
  deriving DecidableEq

/-- The text after a status and the blank that may follow it. -/
def responseText (status response : Line) : Line :=
  let text := response.drop status.length
  if text.head? = some (ascii ' ') then text.tail else text

def parseResponse (response : Option Line) : ResponseStatus × Option Line :=
  match response with
  | none => (.err, none)
  | some line =>
      let response := cString line
      if asciiText "+OK" <+: response then (.ok, some (responseText (asciiText "+OK") response))
      else if asciiText "-ERR" <+: response then (.err, some (responseText (asciiText "-ERR") response))
      else (.err, none)

/-! ### The readers of several lines -/

section Readers

variable {σ : Type} (readLine : σ → Option Line × σ)
variable (stray : Carray.Slots MsgInfo)

/-- One line of a listing; `none` is the failure of carray_set_size. -/
def listLine (msgTab : Carray MsgInfo) (line : Line) : Option (Carray MsgInfo) :=
  match msgIndexParse (cString line) with
  | none => some msgTab
  | some (indx, rest) =>
      match parseSpace rest with
      | none => some msgTab
      | some text =>
          let size : UInt32 := UInt32.ofInt (strtol text)
          let msg := msgInfoNew indx size none
          let sized := if msgTab.len < indx then Carray.carraySetSize msgTab indx (some stray) else (true, msgTab)
          if sized.1 then some (Carray.carraySet sized.2 (indx - 1) (some msg)) else none

def readListRound (s : σ × Carray MsgInfo) : (σ × Carray MsgInfo) ⊕ (Option (Carray MsgInfo) × σ) :=
  match readLine s.1 with
  | (none, after) => .inr (none, after)
  | (some line, after) =>
      if mailstreamIsEndMultiline line then .inr (some s.2, after)
      else
        match listLine stray s.2 line with
        | none => .inr (none, after)
        | some msgTab => .inl (after, msgTab)

/-- The table, or `none` for MAILPOP3_ERROR_STREAM; the outer `none` is a call that is not over after `rounds` lines. -/
def readList (rounds : Nat) (s : σ) : Option (Option (Carray MsgInfo) × σ) :=
  match Carray.carrayNew 128 true (some stray) with
  | none => some (none, s)
  | some msgTab => loop (readListRound readLine stray) rounds (s, msgTab)

def uidlLine (msgTab : Carray MsgInfo) (line : Line) : Carray MsgInfo :=
  match msgIndexParse (cString line) with
  | none => msgTab
  | some (indx, rest) =>
      match parseSpace rest with
      | none => msgTab
      | some uidl =>
          if indx > msgTab.len then msgTab
          else
            match Carray.carrayGet msgTab (indx - 1) with
            | none => msgTab
            | some msg => Carray.carraySet msgTab (indx - 1) (some { msg with msgUidl := some uidl })

/-- Whether the end of the listing was read, with the table as it is left. -/
def readUidlRound (s : σ × Carray MsgInfo) : (σ × Carray MsgInfo) ⊕ (Bool × σ × Carray MsgInfo) :=
  match readLine s.1 with
  | (none, after) => .inr (false, after, s.2)
  | (some line, after) =>
      if mailstreamIsEndMultiline line then .inr (true, after, s.2) else .inl (after, uidlLine s.2 line)

def readUidl (rounds : Nat) (s : σ) (msgTab : Carray MsgInfo) : Option (Bool × σ × Carray MsgInfo) :=
  loop (readUidlRound readLine) rounds (s, msgTab)

structure Capa where
  capName : Line
  capParam : List Line

def capaLine (line : Line) : Capa :=
  let cut := cutToken (cString line)
  ⟨cut.1, (cut.2.map paramTokens).getD []⟩

def readCapaRespRound (s : σ × List Capa) : (σ × List Capa) ⊕ (Option (List Capa) × σ) :=
  match readLine s.1 with
  | (none, after) => .inr (none, after)
  | (some line, after) =>
      if mailstreamIsEndMultiline line then .inr (some s.2, after) else .inl (after, s.2 ++ [capaLine line])

def readCapaResp (rounds : Nat) (s : σ) : Option (Option (List Capa) × σ) :=
  loop (readCapaRespRound readLine) rounds (s, [])

end Readers

end Etpan.Pop3
