import Etpan.Data.Comparator
import Etpan.Data.Json

namespace Etpan.DataTypes

open Etpan.Data

/-! The scan for duplicate keys of `data-types/mailjson.c`.

Memory is always available.  A function that returns -1 is never asked for its position
again, so that it returns `none` here, and else the position where it stops. -/

/-- How a scan goes wrong: it reads beyond the data, or it takes more than the given
number of steps. -/
inductive Fault where
  | overrun
  | unfinished
deriving DecidableEq

abbrev Scan (α : Type) := Except Fault α

/-- json-c: the string that `json_tokener_parse_ex` makes of some octets in strict mode,
`none` where it does not succeed with a string at the last of them. -/
abbrev Tokener := List UInt8 → Option (List UInt8)

def intMax : Nat := 2147483647

section Scanner

variable (tokener : Tokener) (data : List UInt8)

def readAt (pos : Nat) : Scan UInt8 :=
  match data[pos]? with
  | some ch => .ok ch
  | none => .error .overrun

def hasAt (pos : Nat) (ch : UInt8) : Scan Bool :=
  if pos < data.length then
    match readAt data pos with
    | .ok found => .ok (decide (found = ch))
    | .error fault => .error fault
  else .ok false

def skipWhile (skipped : UInt8 → Bool) (pos : Nat) : Scan Nat :=
  if pos < data.length then
    match readAt data pos with
    | .error fault => .error fault
    | .ok ch => if skipped ch then skipWhile skipped (pos + 1) else .ok pos
  else .ok pos
termination_by data.length - pos

def scanWhitespace (pos : Nat) : Scan Nat := skipWhile data isJsonSpace pos

def stringLoop (pos : Nat) : Scan (Option Nat) :=
  if pos < data.length then
    match readAt data pos with
    | .error fault => .error fault
    | .ok ch =>
        if ch = ascii '"' then .ok (some (pos + 1))
        else if ch = ascii '\\' then
          if data.length ≤ pos + 1 then .ok none
          else
            match readAt data (pos + 1) with
            | .error fault => .error fault
            | .ok letter =>
                if letter = ascii 'u' then
                  if data.length - (pos + 2) < 4 then .ok none else stringLoop (pos + 2 + 4)
                else stringLoop (pos + 2)
        else stringLoop (pos + 1)
  else .ok none
termination_by data.length - pos

def scanString (pos : Nat) : Scan (Option Nat) :=
  if data.length ≤ pos then .ok none
  else
    match readAt data pos with
    | .error fault => .error fault
    | .ok ch => if ch ≠ ascii '"' then .ok none else stringLoop data (pos + 1)

/-- The key is a C string: what the tokener makes of the octets up to the first NUL. -/
def decodeKey (start length : Nat) : Option (List UInt8) :=
  if intMax ≤ length then none
  else (tokener ((data.drop start).take length)).map cString

/-- The octets that end a scalar. -/
def endsScalar (ch : UInt8) : Bool := ch = ascii ',' || ch = ascii ']' || ch = ascii '}' || isJsonSpace ch

def scanScalar (pos : Nat) : Scan Nat := skipWhile data (!endsScalar ·) pos

mutual

def scanValue : Nat → Nat → Scan (Option Nat)
  | 0, _ => .error .unfinished
  | steps + 1, pos =>
      match scanWhitespace data pos with
      | .error fault => .error fault
      | .ok pos =>
          if data.length ≤ pos then .ok none
          else
            match readAt data pos with
            | .error fault => .error fault
            | .ok ch =>
                if ch = ascii '{' then scanObject steps pos
                else if ch = ascii '[' then scanArray steps pos
                else if ch = ascii '"' then scanString data pos
                else (scanScalar data pos).map some

def scanArray : Nat → Nat → Scan (Option Nat)
  | 0, _ => .error .unfinished
  | steps + 1, pos =>
      match scanWhitespace data (pos + 1) with
      | .error fault => .error fault
      | .ok pos =>
          match hasAt data pos (ascii ']') with
          | .error fault => .error fault
          | .ok true => .ok (some (pos + 1))
          | .ok false => arrayLoop steps pos

def arrayLoop : Nat → Nat → Scan (Option Nat)
  | 0, _ => .error .unfinished
  | steps + 1, pos =>
      match scanValue steps pos with
      | .error fault => .error fault
      | .ok none => .ok none
      | .ok (some pos) =>
          match scanWhitespace data pos with
          | .error fault => .error fault
          | .ok pos =>
              match hasAt data pos (ascii ']'), hasAt data pos (ascii ',') with
              | .ok true, _ => .ok (some (pos + 1))
              | .ok false, .ok false => .ok none
              | .ok false, .ok true =>
                  match scanWhitespace data (pos + 1) with
                  | .error fault => .error fault
                  | .ok pos => arrayLoop steps pos
              | .error fault, _ => .error fault
              | _, .error fault => .error fault

def scanObject : Nat → Nat → Scan (Option Nat)
  | 0, _ => .error .unfinished
  | steps + 1, pos =>
      match scanWhitespace data (pos + 1) with
      | .error fault => .error fault
      | .ok pos =>
          match hasAt data pos (ascii '}') with
          | .error fault => .error fault
          | .ok true => .ok (some (pos + 1))
          | .ok false => objectLoop steps [] pos

def objectLoop : Nat → List (List UInt8) → Nat → Scan (Option Nat)
  | 0, _, _ => .error .unfinished
  | steps + 1, keys, start =>
      match scanString data start with
      | .error fault => .error fault
      | .ok none => .ok none
      | .ok (some pos) =>
          match decodeKey tokener data start (pos - start) with
          | none => .ok none
          | some key =>
              if keys.any (fun other => strcmp other key = 0) then .ok none
              else
                match scanWhitespace data pos with
                | .error fault => .error fault
                | .ok pos =>
                    match hasAt data pos (ascii ':') with
                    | .error fault => .error fault
                    | .ok false => .ok none
                    | .ok true =>
                        match scanValue steps (pos + 1) with
                        | .error fault => .error fault
                        | .ok none => .ok none
                        | .ok (some pos) =>
                            match scanWhitespace data pos with
                            | .error fault => .error fault
                            | .ok pos =>
                                match hasAt data pos (ascii '}'), hasAt data pos (ascii ',') with
                                | .ok true, _ => .ok (some (pos + 1))
                                | .ok false, .ok false => .ok none
                                | .ok false, .ok true =>
                                    match scanWhitespace data (pos + 1) with
                                    | .error fault => .error fault
                                    | .ok pos => objectLoop steps (keys ++ [key]) pos
                                | .error fault, _ => .error fault
                                | _, .error fault => .error fault

end

/-- 1 stands for a duplicate or for octets that the scan does not get through. -/
def duplicateKeysFound (steps : Nat) : Scan Nat :=
  match scanValue tokener data steps 0 with
  | .error fault => .error fault
  | .ok none => .ok 1
  | .ok (some pos) =>
      match scanWhitespace data pos with
      | .error fault => .error fault
      | .ok pos => .ok (if pos ≠ data.length then 1 else 0)

end Scanner

/-! The scan for duplicate keys ends within the data, whatever they are. -/

variable {tokener : Tokener} {data : List UInt8}

/-- A scan that ends, at a position from the given one on and not beyond the data. -/
def Ends (data : List UInt8) (pos : Nat) (outcome : Scan (Option Nat)) : Prop :=
  outcome = .ok none ∨ ∃ next, outcome = .ok (some next) ∧ pos ≤ next ∧ next ≤ data.length

theorem Ends.from {pos earlier : Nat} {outcome : Scan (Option Nat)} (ended : Ends data pos outcome) (before : earlier ≤ pos) :
    Ends data earlier outcome := by
  rcases ended with failed | ⟨next, stopped, after, inside⟩
  · exact Or.inl failed
  · exact Or.inr ⟨next, stopped, before.trans after, inside⟩

theorem readAt_ok {pos : Nat} (inside : pos < data.length) : ∃ ch, readAt data pos = .ok ch := by
  refine ⟨data[pos], ?_⟩
  rw [readAt, List.getElem?_eq_getElem inside]

theorem hasAt_ok (data : List UInt8) (pos : Nat) (ch : UInt8) :
    ∃ found, hasAt data pos ch = .ok found ∧ (found = true → pos < data.length) := by
  rw [hasAt]
  by_cases inside : pos < data.length
  · obtain ⟨read, here⟩ := readAt_ok inside
    exact ⟨decide (read = ch), by rw [if_pos inside, here], fun _ => inside⟩
  · exact ⟨false, if_neg inside, fun impossible => by cases impossible⟩

theorem skipWhile_ok (skipped : UInt8 → Bool) {pos : Nat} (inside : pos ≤ data.length) :
    ∃ next, skipWhile data skipped pos = .ok next ∧ pos ≤ next ∧ next ≤ data.length := by
  fun_induction skipWhile data skipped pos with
  | case1 pos more fault read =>
      obtain ⟨ch, here⟩ := readAt_ok more
      rw [here] at read
      cases read
  | case2 pos more ch read skip ih =>
      obtain ⟨next, stopped, after, within⟩ := ih more
      exact ⟨next, stopped, by omega, within⟩
  | case3 pos more ch read stop => exact ⟨pos, rfl, le_refl _, inside⟩
  | case4 pos atEnd => exact ⟨pos, rfl, le_refl _, inside⟩

theorem stringLoop_ends {pos : Nat} (inside : pos ≤ data.length) : Ends data pos (stringLoop data pos) := by
  fun_induction stringLoop data pos with
  | case1 pos more fault read =>
      obtain ⟨ch, here⟩ := readAt_ok more
      rw [here] at read
      cases read
  | case2 pos more read => exact Or.inr ⟨pos + 1, rfl, by omega, more⟩
  | case3 => exact Or.inl rfl
  | case4 pos more another fault readNext =>
      obtain ⟨ch, here⟩ := readAt_ok (not_le.mp another)
      rw [here] at readNext
      cases readNext
  | case5 => exact Or.inl rfl
  | case6 =>
      rename_i ih
      exact (ih (by omega)).from (by omega)
  | case7 =>
      rename_i ih
      exact (ih (by omega)).from (by omega)
  | case8 =>
      rename_i ih
      exact (ih (by omega)).from (by omega)
  | case9 => exact Or.inl rfl

theorem scanString_ends (data : List UInt8) (pos : Nat) : Ends data (pos + 1) (scanString data pos) := by
  rw [scanString]
  split_ifs with atEnd
  · exact Or.inl rfl
  · obtain ⟨ch, here⟩ := readAt_ok (not_le.mp atEnd)
    rw [here]
    simp only
    split_ifs with quote
    · exact Or.inl rfl
    · exact stringLoop_ends (not_le.mp atEnd)

/-- The steps that suffice for a value, for the elements and for an array or an object. -/
structure Enough (tokener : Tokener) (data : List UInt8) (steps : Nat) : Prop where
  value : ∀ pos, pos ≤ data.length → 3 * (data.length - pos) + 1 ≤ steps → Ends data pos (scanValue tokener data steps pos)
  array : ∀ pos, pos < data.length → 3 * (data.length - pos) ≤ steps → Ends data pos (scanArray tokener data steps pos)
  elements : ∀ pos, pos ≤ data.length → 3 * (data.length - pos) + 2 ≤ steps → Ends data pos (arrayLoop tokener data steps pos)
  object : ∀ pos, pos < data.length → 3 * (data.length - pos) ≤ steps → Ends data pos (scanObject tokener data steps pos)
  members : ∀ keys pos, pos ≤ data.length → 3 * (data.length - pos) + 2 ≤ steps →
    Ends data pos (objectLoop tokener data steps keys pos)

theorem Enough.scanValue {steps pos : Nat} (enough : Enough tokener data steps) (inside : pos ≤ data.length)
    (fuel : 3 * (data.length - pos) + 1 ≤ steps + 1) : Ends data pos (scanValue tokener data (steps + 1) pos) := by
  obtain ⟨next, skipped, after, within⟩ := skipWhile_ok isJsonSpace inside
  rw [DataTypes.scanValue, scanWhitespace, skipped]
  simp only
  split_ifs with atEnd
  · exact Or.inl rfl
  · obtain ⟨ch, here⟩ := readAt_ok (not_le.mp atEnd)
    rw [here]
    simp only
    split_ifs with brace bracket quote
    · exact (enough.object next (not_le.mp atEnd) (by omega)).from after
    · exact (enough.array next (not_le.mp atEnd) (by omega)).from after
    · exact (scanString_ends data next).from (by omega)
    · obtain ⟨last, ended, beyond, inData⟩ := skipWhile_ok (!endsScalar ·) within
      rw [scanScalar, ended]
      exact Or.inr ⟨last, rfl, after.trans beyond, inData⟩

theorem Enough.scanArray {steps pos : Nat} (enough : Enough tokener data steps) (inside : pos < data.length)
    (fuel : 3 * (data.length - pos) ≤ steps + 1) : Ends data pos (scanArray tokener data (steps + 1) pos) := by
  obtain ⟨next, skipped, after, within⟩ := skipWhile_ok isJsonSpace (show pos + 1 ≤ data.length from inside)
  obtain ⟨closed, found, there⟩ := hasAt_ok data next (ascii ']')
  rw [DataTypes.scanArray, scanWhitespace, skipped]
  simp only [found]
  cases closed with
  | true => exact Or.inr ⟨next + 1, rfl, by omega, there rfl⟩
  | false => exact (enough.elements next within (by omega)).from (by omega)

theorem Enough.scanObject {steps pos : Nat} (enough : Enough tokener data steps) (inside : pos < data.length)
    (fuel : 3 * (data.length - pos) ≤ steps + 1) : Ends data pos (scanObject tokener data (steps + 1) pos) := by
  obtain ⟨next, skipped, after, within⟩ := skipWhile_ok isJsonSpace (show pos + 1 ≤ data.length from inside)
  obtain ⟨closed, found, there⟩ := hasAt_ok data next (ascii '}')
  rw [DataTypes.scanObject, scanWhitespace, skipped]
  simp only [found]
  cases closed with
  | true => exact Or.inr ⟨next + 1, rfl, by omega, there rfl⟩
  | false => exact (enough.members [] next within (by omega)).from (by omega)

theorem Enough.arrayLoop {steps pos : Nat} (enough : Enough tokener data steps) (inside : pos ≤ data.length)
    (fuel : 3 * (data.length - pos) + 2 ≤ steps + 1) : Ends data pos (arrayLoop tokener data (steps + 1) pos) := by
  rw [DataTypes.arrayLoop]
  rcases enough.value pos inside (by omega) with failed | ⟨next, scanned, after, within⟩
  · rw [failed]
    exact Or.inl rfl
  · obtain ⟨stop, skipped, further, inData⟩ := skipWhile_ok isJsonSpace within
    obtain ⟨closed, foundClose, thereClose⟩ := hasAt_ok data stop (ascii ']')
    obtain ⟨comma, foundComma, thereComma⟩ := hasAt_ok data stop (ascii ',')
    rw [scanned]
    simp only [scanWhitespace, skipped, foundClose, foundComma]
    cases closed with
    | true => exact Or.inr ⟨stop + 1, rfl, by omega, thereClose rfl⟩
    | false =>
        cases comma with
        | false => exact Or.inl rfl
        | true =>
            have more := thereComma rfl
            obtain ⟨start, skippedComma, beyond, inside'⟩ := skipWhile_ok isJsonSpace (show stop + 1 ≤ data.length from more)
            simp only [skippedComma]
            exact (enough.elements start inside' (by omega)).from (by omega)

theorem Enough.objectLoop {steps pos : Nat} (enough : Enough tokener data steps) (keys : List (List UInt8))
    (inside : pos ≤ data.length) (fuel : 3 * (data.length - pos) + 2 ≤ steps + 1) :
    Ends data pos (objectLoop tokener data (steps + 1) keys pos) := by
  rw [DataTypes.objectLoop]
  rcases scanString_ends data pos with failed | ⟨next, scanned, after, within⟩
  · rw [failed]
    exact Or.inl rfl
  · rw [scanned]
    simp only
    cases decodeKey tokener data pos (next - pos) with
    | none => exact Or.inl rfl
    | some key =>
        simp only
        split_ifs with seen
        · exact Or.inl rfl
        · obtain ⟨stop, skipped, further, inData⟩ := skipWhile_ok isJsonSpace within
          obtain ⟨colon, foundColon, thereColon⟩ := hasAt_ok data stop (ascii ':')
          simp only [scanWhitespace, skipped, foundColon]
          cases colon with
          | false => exact Or.inl rfl
          | true =>
              have more := thereColon rfl
              simp only
              rcases enough.value (stop + 1) more (by omega) with failed | ⟨behind, scannedValue, afterValue, withinValue⟩
              · rw [failed]
                exact Or.inl rfl
              · obtain ⟨last, skippedValue, furtherValue, inValue⟩ := skipWhile_ok isJsonSpace withinValue
                obtain ⟨closed, foundClose, thereClose⟩ := hasAt_ok data last (ascii '}')
                obtain ⟨comma, foundComma, thereComma⟩ := hasAt_ok data last (ascii ',')
                rw [scannedValue]
                simp only [skippedValue, foundClose, foundComma]
                cases closed with
                | true => exact Or.inr ⟨last + 1, rfl, by omega, thereClose rfl⟩
                | false =>
                    cases comma with
                    | false => exact Or.inl rfl
                    | true =>
                        have another := thereComma rfl
                        obtain ⟨start, skippedComma, beyond, inside'⟩ :=
                          skipWhile_ok isJsonSpace (show last + 1 ≤ data.length from another)
                        simp only [skippedComma]
                        exact (enough.members (keys ++ [key]) start inside' (by omega)).from (by omega)

theorem enough (tokener : Tokener) (data : List UInt8) : ∀ steps, Enough tokener data steps := by
  intro steps
  induction steps with
  | zero => constructor <;> intros <;> omega
  | succ steps ih =>
      exact { value := fun pos inside fuel => ih.scanValue inside fuel
              array := fun pos inside fuel => ih.scanArray inside fuel
              elements := fun pos inside fuel => ih.arrayLoop inside fuel
              object := fun pos inside fuel => ih.scanObject inside fuel
              members := fun keys pos inside fuel => ih.objectLoop keys inside fuel }

def sufficientSteps (data : List UInt8) : Nat := 3 * data.length + 1

theorem duplicateKeysFound_ends (tokener : Tokener) (data : List UInt8) {steps : Nat} (enoughSteps : sufficientSteps data ≤ steps) :
    duplicateKeysFound tokener data steps = .ok 0 ∨ duplicateKeysFound tokener data steps = .ok 1 := by
  rw [sufficientSteps] at enoughSteps
  rw [duplicateKeysFound]
  rcases (enough tokener data steps).value 0 (Nat.zero_le _) (by omega) with failed | ⟨next, scanned, _, within⟩
  · rw [failed]
    exact Or.inr rfl
  · obtain ⟨last, skipped, _, _⟩ := skipWhile_ok isJsonSpace within
    rw [scanned]
    simp only [scanWhitespace, skipped]
    split_ifs with differ
    · exact Or.inr rfl
    · exact Or.inl rfl

end Etpan.DataTypes
