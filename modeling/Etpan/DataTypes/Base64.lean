import Etpan.Data.Abnf

namespace Etpan.DataTypes

open Etpan.Data

/-! base64.c: the base64 of the authentication exchanges.

An access outside the octets that a function was given or has allocated is `none`. -/

def OUTPUT_SIZE : Nat := 513

def index64 : List Int :=
  [-1,-1,-1,-1, -1,-1,-1,-1, -1,-1,-1,-1, -1,-1,-1,-1,
    -1,-1,-1,-1, -1,-1,-1,-1, -1,-1,-1,-1, -1,-1,-1,-1,
    -1,-1,-1,-1, -1,-1,-1,-1, -1,-1,-1,62, -1,-1,-1,63,
    52,53,54,55, 56,57,58,59, 60,61,-1,-1, -1,-1,-1,-1,
    -1, 0, 1, 2,  3, 4, 5, 6,  7, 8, 9,10, 11,12,13,14,
    15,16,17,18, 19,20,21,22, 23,24,25,-1, -1,-1,-1,-1,
    -1,26,27,28, 29,30,31,32, 33,34,35,36, 37,38,39,40,
    41,42,43,44, 45,46,47,48, 49,50,51,-1, -1,-1,-1,-1]

/-- A `char` is signed. -/
def char64 (ch : UInt8) : Int :=
  let c := ch.toInt8.toInt
  if c < 0 ∨ 127 < c then -1 else index64.getD c.toNat (-1)

def basis64 : List UInt8 := asciiText "ABCDEFGHIJKLMNOPQRSTUVWXYZabcdefghijklmnopqrstuvwxyz0123456789+/"

def basisChar (value : Nat) : UInt8 := basis64.getD value 0

def encodeBase64 : List UInt8 → List UInt8
  | [] => []
  | [a] => [basisChar (a.toNat >>> 2), basisChar ((a.toNat <<< 4) &&& 0x30), ascii '=', ascii '=']
  | [a, b] =>
      [basisChar (a.toNat >>> 2), basisChar (((a.toNat <<< 4) &&& 0x30) ||| (b.toNat >>> 4)), basisChar ((b.toNat <<< 2) &&& 0x3c), ascii '=']
  | a :: b :: c :: rest =>
      basisChar (a.toNat >>> 2) :: basisChar (((a.toNat <<< 4) &&& 0x30) ||| (b.toNat >>> 4)) ::
        basisChar (((b.toNat <<< 2) &&& 0x3c) ||| (c.toNat >>> 6)) :: basisChar (c.toNat &&& 0x3f) :: encodeBase64 rest

/-- A write to an allocated block. -/
def poke (block : List UInt8) (index : Nat) (octet : UInt8) : Option (List UInt8) :=
  if index < block.length then some (block.set index octet) else none

/-- The function returns NULL, or it goes on with what it has written. -/
inductive Decoding where
  | null
  | goesOn (output : List UInt8) (outLen : Nat)
deriving Repr, DecidableEq

def Decoding.andThen (decoding : Decoding) (next : List UInt8 → Nat → Option Decoding) : Option Decoding :=
  match decoding with
  | .null => some .null
  | .goesOn output outLen => next output outLen

def putOctet (output : List UInt8) (outLen : Nat) (octet : UInt8) : Option Decoding :=
  (poke output outLen octet).map fun output => if outLen + 1 ≥ OUTPUT_SIZE then .null else .goesOn output (outLen + 1)

def isInvalidGroup (c1 c2 c3 c4 : UInt8) : Prop :=
  char64 c1 = -1 ∨ char64 c2 = -1 ∨ c3 ≠ ascii '=' ∧ char64 c3 = -1 ∨ c4 ≠ ascii '=' ∧ char64 c4 = -1

instance (c1 c2 c3 c4 : UInt8) : Decidable (isInvalidGroup c1 c2 c3 c4) :=
  inferInstanceAs (Decidable (_ ∨ _ ∨ _ ∧ _ ∨ _ ∧ _))

def firstOctet (c1 c2 : UInt8) : UInt8 := UInt8.ofNat (((char64 c1).toNat <<< 2) ||| ((char64 c2).toNat >>> 4))

def secondOctet (c2 c3 : UInt8) : UInt8 := UInt8.ofNat ((((char64 c2).toNat <<< 4) &&& 0xf0) ||| ((char64 c3).toNat >>> 2))

def thirdOctet (c3 c4 : UInt8) : UInt8 := UInt8.ofNat ((((char64 c3).toNat <<< 6) &&& 0xc0) ||| (char64 c4).toNat)

def decodeGroup (c1 c2 c3 c4 : UInt8) (output : List UInt8) (outLen : Nat) : Option Decoding :=
  if isInvalidGroup c1 c2 c3 c4 then some .null
  else
    (putOctet output outLen (firstOctet c1 c2)).bind fun first => first.andThen fun output outLen =>
      if c3 = ascii '=' then some (.goesOn output outLen)
      else
        (putOctet output outLen (secondOctet c2 c3)).bind fun second => second.andThen fun output outLen =>
          if c4 = ascii '=' then some (.goesOn output outLen) else putOctet output outLen (thirdOctet c3 c4)

def groupsLoop (input : List UInt8) : Nat → Nat → List UInt8 → Nat → Option Decoding
  | 0, _, output, outLen => some (.goesOn output outLen)
  | groups + 1, indx, output, outLen => do
      let c1 ← input[indx]?
      let c2 ← input[indx + 1]?
      let c3 ← input[indx + 2]?
      let c4 ← input[indx + 3]?
      let decoding ← decodeGroup c1 c2 c3 c4 output outLen
      decoding.andThen (groupsLoop input groups (indx + 4))

def startsWithPlus (input : List UInt8) : Option Bool :=
  if 2 ≤ input.length then do
    let first ← input[0]?
    let second ← input[1]?
    some (first = ascii '+' ∧ second = ascii ' ')
  else some false

abbrev OutputBlock := { block : List UInt8 // block.length = OUTPUT_SIZE }

/-- The input is the first `len` octets.  The result is NULL or the block. -/
def decodeBase64 (block : OutputBlock) (input : List UInt8) (len : Int) : Option (Option (List UInt8)) :=
  if len < 0 then some none
  else do
    let input := input.take len.toNat
    let plus ← startsWithPlus input
    let indx := if plus then 2 else 0
    let decoding ← groupsLoop input ((len.toNat - indx) / 4) indx block.val 0
    match decoding with
    | .null => some none
    | .goesOn output outLen => (poke output outLen 0).map some

def groupOctets (c1 c2 c3 c4 : UInt8) : Option (List UInt8) :=
  if isInvalidGroup c1 c2 c3 c4 then none
  else if c3 = ascii '=' then some [firstOctet c1 c2]
  else if c4 = ascii '=' then some [firstOctet c1 c2, secondOctet c2 c3]
  else some [firstOctet c1 c2, secondOctet c2 c3, thirdOctet c3 c4]

def textOctets : List UInt8 → Option (List UInt8)
  | c1 :: c2 :: c3 :: c4 :: rest => (groupOctets c1 c2 c3 c4).bind fun octets => (textOctets rest).map (octets ++ ·)
  | _ => some []

structure Wrote (output octets : List UInt8) : Prop where
  size : output.length = OUTPUT_SIZE
  room : octets.length < OUTPUT_SIZE
  starts : octets <+: output

/-- What is decoded behind the octets: they fit in, or the result is NULL. -/
inductive Decodes (octets : List UInt8) : Option (List UInt8) → Option Decoding → Prop
  | fits {more output : List UInt8} (wrote : Wrote output (octets ++ more)) :
      Decodes octets (some more) (some (.goesOn output (octets ++ more).length))
  | full {more : List UInt8} (tooLong : OUTPUT_SIZE ≤ (octets ++ more).length) : Decodes octets (some more) (some .null)
  | invalid : Decodes octets none (some .null)

variable {output octets : List UInt8}

theorem Wrote.poke (wrote : Wrote output octets) (octet : UInt8) :
    ∃ rest, poke output octets.length octet = some (octets ++ octet :: rest) ∧ (octets ++ octet :: rest).length = OUTPUT_SIZE := by
  obtain ⟨rest, rfl⟩ := wrote.starts
  have size := wrote.size
  have room := wrote.room
  rw [List.length_append] at size
  rw [DataTypes.poke, if_pos (by rw [List.length_append]; omega), List.set_append_right _ _ (Nat.le_refl _), Nat.sub_self]
  cases rest with
  | nil =>
      rw [List.length_nil] at size
      omega
  | cons old rest =>
      refine ⟨rest, rfl, ?_⟩
      rw [List.length_append, List.length_cons]
      rwa [List.length_cons] at size

theorem Wrote.putOctet (wrote : Wrote output octets) (octet : UInt8) : Decodes octets (some [octet]) (putOctet output octets.length octet) := by
  obtain ⟨rest, poked, size⟩ := wrote.poke octet
  have length : (octets ++ [octet]).length = octets.length + 1 := by rw [List.length_append, List.length_singleton]
  rw [DataTypes.putOctet, poked, Option.map_some]
  split_ifs with full
  · exact .full (length.symm ▸ full)
  · rw [← length]
    refine .fits ⟨size, length.symm ▸ Nat.lt_of_not_le full, rest, ?_⟩
    rw [List.append_assoc, List.singleton_append]

theorem Decodes.andThen {first : List UInt8} {more : Option (List UInt8)} {decoding : Option Decoding} (decodes : Decodes octets (some first) decoding)
    (next : List UInt8 → Nat → Option Decoding)
    (goesOn : ∀ output, Wrote output (octets ++ first) → Decodes (octets ++ first) more (next output (octets ++ first).length)) :
    Decodes octets (more.map (first ++ ·)) (decoding.bind fun decoding => decoding.andThen next) := by
  cases decodes with
  | @fits _ output wrote =>
      have later := goesOn output wrote
      rw [Option.bind_some, Decoding.andThen]
      generalize next output (octets ++ first).length = result at later
      cases later with
      | invalid => exact .invalid
      | @full more tooLong =>
          rw [List.append_assoc] at tooLong
          exact .full tooLong
      | @fits more output wrote =>
          rw [List.append_assoc] at wrote ⊢
          exact .fits wrote
  | full tooLong =>
      rw [Option.bind_some, Decoding.andThen]
      cases more with
      | none => exact .invalid
      | some more =>
          refine .full (Nat.le_trans tooLong ?_)
          simp only [List.length_append]
          omega

theorem Wrote.decodeGroup (wrote : Wrote output octets) (c1 c2 c3 c4 : UInt8) :
    Decodes octets (groupOctets c1 c2 c3 c4) (decodeGroup c1 c2 c3 c4 output octets.length) := by
  have nothing : ∀ {octets output : List UInt8}, Wrote output octets → Decodes octets (some []) (some (.goesOn output octets.length)) := by
    intro octets output wrote
    have same := List.append_nil octets
    have fits := @Decodes.fits octets [] output (same.symm ▸ wrote)
    rwa [same] at fits
  rw [groupOctets, DataTypes.decodeGroup]
  split_ifs with isInvalid noThird noFourth
  · exact .invalid
  · exact (wrote.putOctet (firstOctet c1 c2)).andThen (fun output outLen => some (.goesOn output outLen)) fun _ wrote => nothing wrote
  · have later : ∀ output, Wrote output (octets ++ [firstOctet c1 c2]) → Decodes (octets ++ [firstOctet c1 c2]) (some [secondOctet c2 c3])
        ((DataTypes.putOctet output (octets ++ [firstOctet c1 c2]).length (secondOctet c2 c3)).bind fun second => second.andThen fun output outLen =>
          some (.goesOn output outLen)) := fun output wrote =>
      (wrote.putOctet (secondOctet c2 c3)).andThen (fun output outLen => some (.goesOn output outLen)) fun _ wrote => nothing wrote
    exact (wrote.putOctet (firstOctet c1 c2)).andThen (fun output outLen => (DataTypes.putOctet output outLen (secondOctet c2 c3)).bind fun second =>
      second.andThen fun output outLen => some (.goesOn output outLen)) later
  · have later : ∀ output, Wrote output (octets ++ [firstOctet c1 c2]) →
        Decodes (octets ++ [firstOctet c1 c2]) (some [secondOctet c2 c3, thirdOctet c3 c4])
          ((DataTypes.putOctet output (octets ++ [firstOctet c1 c2]).length (secondOctet c2 c3)).bind fun second => second.andThen fun output outLen =>
            DataTypes.putOctet output outLen (thirdOctet c3 c4)) := fun output wrote =>
      (wrote.putOctet (secondOctet c2 c3)).andThen (fun output outLen => DataTypes.putOctet output outLen (thirdOctet c3 c4)) fun _ wrote =>
        wrote.putOctet (thirdOctet c3 c4)
    exact (wrote.putOctet (firstOctet c1 c2)).andThen (fun output outLen => (DataTypes.putOctet output outLen (secondOctet c2 c3)).bind fun second =>
      second.andThen fun output outLen => DataTypes.putOctet output outLen (thirdOctet c3 c4)) later

theorem Wrote.groupsLoop (wrote : Wrote output octets) {input text : List UInt8} {indx : Nat} (at_ : input.drop indx = text) :
    Decodes octets (textOctets text) (groupsLoop input (text.length / 4) indx output octets.length) := by
  induction text using textOctets.induct generalizing output octets indx with
  | case1 c1 c2 c3 c4 rest ih =>
      have groups : (c1 :: c2 :: c3 :: c4 :: rest).length / 4 = rest.length / 4 + 1 := by
        simp only [List.length_cons]
        omega
      have reads : ∀ offset, input[indx + offset]? = (c1 :: c2 :: c3 :: c4 :: rest)[offset]? := by
        intro offset
        rw [← at_, List.getElem?_drop]
      have first := reads 0
      rw [Nat.add_zero] at first
      have behind : input.drop (indx + 4) = rest := by rw [← List.drop_drop, at_]; rfl
      rw [groups, DataTypes.groupsLoop, first, reads 1, reads 2, reads 3, textOctets]
      have group := wrote.decodeGroup c1 c2 c3 c4
      simp only [Option.bind_eq_bind, List.getElem?_cons_zero, List.getElem?_cons_succ, Option.bind_some]
      generalize DataTypes.decodeGroup c1 c2 c3 c4 output octets.length = decoding at group
      cases read : groupOctets c1 c2 c3 c4 with
      | none =>
          rw [read] at group
          cases group
          exact .invalid
      | some octets' =>
          rw [read] at group
          rw [Option.bind_some]
          exact group.andThen _ fun _ wrote => ih wrote behind
  | case2 text short =>
      have few : text.length / 4 = 0 := by
        rcases text with _ | ⟨c1, _ | ⟨c2, _ | ⟨c3, _ | ⟨c4, rest⟩⟩⟩⟩
        · rfl
        · exact Nat.div_eq_of_lt (show 1 < 4 by decide)
        · exact Nat.div_eq_of_lt (show 2 < 4 by decide)
        · exact Nat.div_eq_of_lt (show 3 < 4 by decide)
        · exact (short c1 c2 c3 c4 rest rfl).elim
      have same := List.append_nil octets
      have fits := @Decodes.fits octets [] output (same.symm ▸ wrote)
      rw [few, DataTypes.groupsLoop, textOctets]
      · rwa [same] at fits
      · exact short

def withoutPlus (input : List UInt8) : List UInt8 := if asciiText "+ " <+: input then input.drop 2 else input

theorem startsWithPlus_eq (input : List UInt8) : startsWithPlus input = some (decide (asciiText "+ " <+: input)) := by
  rcases input with _ | ⟨first, _ | ⟨second, rest⟩⟩
  · rfl
  · have short : ¬ asciiText "+ " <+: [first] := fun isPrefix => absurd isPrefix.length_le (by rw [List.length_singleton]; decide)
    rw [decide_eq_false short]
    rfl
  · have start : asciiText "+ " <+: first :: second :: rest ↔ first = ascii '+' ∧ second = ascii ' ' := by
      rw [show asciiText "+ " = [ascii '+', ascii ' '] from rfl, List.cons_prefix_cons, List.cons_prefix_cons]
      simp only [List.nil_prefix, and_true, eq_comm]
    simp only [start]
    rfl

theorem decodeBase64_result (block : OutputBlock) {input : List UInt8} {len : Nat} (within : len ≤ input.length) :
    match textOctets (withoutPlus (input.take len)) with
    | none => decodeBase64 block input len = some none
    | some octets =>
        if octets.length < OUTPUT_SIZE then ∃ rest, decodeBase64 block input len = some (some (octets ++ 0 :: rest))
        else decodeBase64 block input len = some none := by
  have notNegative : ¬ (len : Int) < 0 := by omega
  have size : (input.take len).length = len := by rw [List.length_take, Nat.min_eq_left within]
  have blank : Wrote block.val [] := ⟨block.property, by decide, List.nil_prefix⟩
  have start : ∃ indx, (if decide (asciiText "+ " <+: input.take len) then 2 else 0) = indx ∧
      (input.take len).drop indx = withoutPlus (input.take len) ∧ (withoutPlus (input.take len)).length = len - indx := by
    rw [withoutPlus]
    by_cases plus : asciiText "+ " <+: input.take len
    · refine ⟨2, by rw [decide_eq_true plus]; rfl, by rw [if_pos plus], ?_⟩
      rw [if_pos plus, List.length_drop, size]
    · refine ⟨0, by rw [decide_eq_false plus]; rfl, by rw [if_neg plus]; rfl, ?_⟩
      rw [if_neg plus, size]
      rfl
  obtain ⟨indx, isIndx, at_, length⟩ := start
  have loop := blank.groupsLoop at_
  have unfolded : decodeBase64 block input len = (groupsLoop (input.take len) ((len - indx) / 4) indx block.val 0).bind fun decoding =>
      match decoding with
      | .null => some none
      | .goesOn output outLen => (poke output outLen 0).map some := by
    rw [decodeBase64, if_neg notNegative, Int.toNat_natCast]
    simp only [startsWithPlus_eq, Option.bind_eq_bind, Option.bind_some, isIndx]
  rw [unfolded, ← length]
  rw [List.length_nil] at loop
  generalize DataTypes.groupsLoop (input.take len) ((withoutPlus (input.take len)).length / 4) indx block.val 0 = decoding at loop
  cases read : textOctets (withoutPlus (input.take len)) with
  | none =>
      rw [read] at loop
      cases loop
      rfl
  | some octets =>
      rw [read] at loop
      cases loop with
      | fits wrote =>
          obtain ⟨rest, poked, -⟩ := wrote.poke 0
          rw [List.nil_append] at poked wrote
          dsimp only
          rw [if_pos wrote.room, Option.bind_some]
          refine ⟨rest, ?_⟩
          rw [List.nil_append]
          dsimp only
          rw [poked, Option.map_some]
      | full tooLong =>
          rw [List.nil_append] at tooLong
          dsimp only
          rw [if_neg (Nat.not_lt.mpr tooLong)]
          rfl

theorem char64_basisChar : ∀ value < 64, char64 (basisChar value) = value ∧ basisChar value ≠ ascii '=' ∧ basisChar value ≠ ascii ' ' := by
  decide +kernel

theorem basisChar_mem {value : Nat} (small : value < 64) : basisChar value ∈ basis64 := by
  have inside : value < basis64.length := small
  rw [basisChar, List.getD_eq_getElem _ _ inside]
  exact List.getElem_mem inside

theorem basisChar_char64 : ∀ ch, char64 ch ≠ -1 → basisChar (char64 ch).toNat = ch ∧ (char64 ch).toNat < 64 := forall_octet (by decide +kernel)

theorem char64_of_not_mem {ch : UInt8} (outside : ch ∉ basis64) : char64 ch = -1 := by
  by_contra value
  obtain ⟨same, small⟩ := basisChar_char64 ch value
  exact outside (same ▸ basisChar_mem small)

/-- A character of a complete group is neither in the alphabet nor padding in one of the last two places. -/
def HasInvalidGroup (text : List UInt8) : Prop :=
  ∃ group place ch, place < 4 ∧ group * 4 + 4 ≤ text.length ∧ text[group * 4 + place]? = some ch ∧ ch ∉ basis64 ∧
    ¬ (2 ≤ place ∧ ch = ascii '=')

theorem isInvalidGroup_of_place {c1 c2 c3 c4 ch : UInt8} {place : Nat} (inGroup : [c1, c2, c3, c4][place]? = some ch) (outside : ch ∉ basis64)
    (notPadding : ¬ (2 ≤ place ∧ ch = ascii '=')) : isInvalidGroup c1 c2 c3 c4 := by
  have noValue := char64_of_not_mem outside
  rcases place with _ | _ | _ | _ | place
  · cases inGroup
    exact .inl noValue
  · cases inGroup
    exact .inr (.inl noValue)
  · cases inGroup
    exact .inr (.inr (.inl ⟨fun isPadding => notPadding ⟨Nat.le_refl 2, isPadding⟩, noValue⟩))
  · cases inGroup
    exact .inr (.inr (.inr ⟨fun isPadding => notPadding ⟨Nat.le_succ 2, isPadding⟩, noValue⟩))
  · cases inGroup

theorem HasInvalidGroup.none {text : List UInt8} (invalid : HasInvalidGroup text) : textOctets text = none := by
  obtain ⟨group, place, ch, inFour, inText, at_, outside, notPadding⟩ := invalid
  induction group generalizing text with
  | zero =>
      rcases text with _ | ⟨c1, _ | ⟨c2, _ | ⟨c3, _ | ⟨c4, rest⟩⟩⟩⟩
      · cases at_
      · exact absurd inText (show ¬ 4 ≤ 1 by decide)
      · exact absurd inText (show ¬ 4 ≤ 2 by decide)
      · exact absurd inText (show ¬ 4 ≤ 3 by decide)
      · have inGroup : [c1, c2, c3, c4][place]? = some ch := by
          have first : (c1 :: c2 :: c3 :: c4 :: rest)[place]? = ([c1, c2, c3, c4] ++ rest)[place]? := rfl
          rw [Nat.zero_mul, Nat.zero_add, first, List.getElem?_append_left (show place < 4 from inFour)] at at_
          exact at_
        rw [textOctets, groupOctets, if_pos (isInvalidGroup_of_place inGroup outside notPadding)]
        rfl
  | succ group ih =>
      rcases text with _ | ⟨c1, _ | ⟨c2, _ | ⟨c3, _ | ⟨c4, rest⟩⟩⟩⟩
      · cases at_
      · exact absurd inText (by simp only [List.length_cons, List.length_nil]; omega)
      · exact absurd inText (by simp only [List.length_cons, List.length_nil]; omega)
      · exact absurd inText (by simp only [List.length_cons, List.length_nil]; omega)
      · have within : group * 4 + 4 ≤ rest.length := by
          simp only [List.length_cons] at inText
          omega
        have place_eq : (group + 1) * 4 + place = (group * 4 + place) + 4 := by omega
        have later : rest[group * 4 + place]? = some ch := by
          rw [place_eq] at at_
          exact at_
        rw [textOctets, ih within later]
        cases groupOctets c1 c2 c3 c4 with
        | none => rfl
        | some octets => rfl

theorem encodedValues (a b c : UInt8) :
    a.toNat >>> 2 = a.toNat / 4 ∧ (a.toNat <<< 4) &&& 0x30 = a.toNat % 4 * 16 ∧
      ((a.toNat <<< 4) &&& 0x30) ||| (b.toNat >>> 4) = a.toNat % 4 * 16 + b.toNat / 16 ∧ (b.toNat <<< 2) &&& 0x3c = b.toNat % 16 * 4 ∧
      ((b.toNat <<< 2) &&& 0x3c) ||| (c.toNat >>> 6) = b.toNat % 16 * 4 + c.toNat / 64 ∧ c.toNat &&& 0x3f = c.toNat % 64 := by
  have bBound := b.toNat_lt
  have cBound := c.toNat_lt
  have aHigh : (a.toNat <<< 4) &&& 0x30 = (a.toNat % 4) <<< 4 := by
    rw [show (0x30 : Nat) = 3 <<< 4 from rfl, ← Nat.shiftLeft_and_distrib, Nat.and_two_pow_sub_one_eq_mod _ 2]
  have bHigh : (b.toNat <<< 2) &&& 0x3c = (b.toNat % 16) <<< 2 := by
    rw [show (0x3c : Nat) = 15 <<< 2 from rfl, ← Nat.shiftLeft_and_distrib, Nat.and_two_pow_sub_one_eq_mod _ 4]
  refine ⟨Nat.shiftRight_eq_div_pow _ 2, ?_, ?_, ?_, ?_, Nat.and_two_pow_sub_one_eq_mod _ 6⟩
  · rw [aHigh, Nat.shiftLeft_eq]
  · rw [aHigh, Nat.shiftRight_eq_div_pow, shiftLeft_or _ (by omega)]
    rfl
  · rw [bHigh, Nat.shiftLeft_eq]
  · rw [bHigh, Nat.shiftRight_eq_div_pow, shiftLeft_or _ (by omega)]
    rfl

theorem firstOctet_basisChar {first second : Nat} (firstSmall : first < 64) (secondSmall : second < 64) :
    firstOctet (basisChar first) (basisChar second) = UInt8.ofNat (first * 4 + second / 16) := by
  rw [firstOctet, (char64_basisChar first firstSmall).1, (char64_basisChar second secondSmall).1, Int.toNat_natCast, Int.toNat_natCast,
    Nat.shiftRight_eq_div_pow, shiftLeft_or _ (by omega)]
  rfl

theorem secondOctet_basisChar {second third : Nat} (secondSmall : second < 64) (thirdSmall : third < 64) :
    secondOctet (basisChar second) (basisChar third) = UInt8.ofNat (second % 16 * 16 + third / 4) := by
  have high : (second <<< 4) &&& 0xf0 = (second % 16) <<< 4 := by
    rw [show (0xf0 : Nat) = 15 <<< 4 from rfl, ← Nat.shiftLeft_and_distrib, Nat.and_two_pow_sub_one_eq_mod _ 4]
  rw [secondOctet, (char64_basisChar second secondSmall).1, (char64_basisChar third thirdSmall).1, Int.toNat_natCast, Int.toNat_natCast, high,
    Nat.shiftRight_eq_div_pow, shiftLeft_or _ (by omega)]
  rfl

theorem thirdOctet_basisChar {third fourth : Nat} (thirdSmall : third < 64) (fourthSmall : fourth < 64) :
    thirdOctet (basisChar third) (basisChar fourth) = UInt8.ofNat (third % 4 * 64 + fourth) := by
  have high : (third <<< 6) &&& 0xc0 = (third % 4) <<< 6 := by
    rw [show (0xc0 : Nat) = 3 <<< 6 from rfl, ← Nat.shiftLeft_and_distrib, Nat.and_two_pow_sub_one_eq_mod _ 2]
  rw [thirdOctet, (char64_basisChar third thirdSmall).1, (char64_basisChar fourth fourthSmall).1, Int.toNat_natCast, Int.toNat_natCast, high,
    shiftLeft_or _ (by omega)]
  rfl

theorem ofNat_toNat_eq {number : Nat} {octet : UInt8} (same : number = octet.toNat) : UInt8.ofNat number = octet := by
  rw [same, UInt8.ofNat_toNat]

theorem basisChar_valid {value : Nat} (small : value < 64) : char64 (basisChar value) ≠ -1 := by
  rw [(char64_basisChar value small).1]
  omega

theorem not_invalidGroup {first second third fourth : UInt8} (isFirst : char64 first ≠ -1) (isSecond : char64 second ≠ -1)
    (isThird : third ≠ ascii '=' → char64 third ≠ -1) (isFourth : fourth ≠ ascii '=' → char64 fourth ≠ -1) :
    ¬ isInvalidGroup first second third fourth := by
  rintro (noFirst | noSecond | ⟨notPadding, noThird⟩ | ⟨notPadding, noFourth⟩)
  · exact isFirst noFirst
  · exact isSecond noSecond
  · exact isThird notPadding noThird
  · exact isFourth notPadding noFourth

section Group

variable (a b c : UInt8)

theorem groupOctets_three : groupOctets (basisChar (a.toNat >>> 2)) (basisChar (((a.toNat <<< 4) &&& 0x30) ||| (b.toNat >>> 4)))
    (basisChar (((b.toNat <<< 2) &&& 0x3c) ||| (c.toNat >>> 6))) (basisChar (c.toNat &&& 0x3f)) = some [a, b, c] := by
  have aBound := a.toNat_lt
  have bBound := b.toNat_lt
  have cBound := c.toNat_lt
  obtain ⟨first, -, second, -, third, fourth⟩ := encodedValues a b c
  rw [first, second, third, fourth]
  have firstSmall : a.toNat / 4 < 64 := by omega
  have secondSmall : a.toNat % 4 * 16 + b.toNat / 16 < 64 := by omega
  have thirdSmall : b.toNat % 16 * 4 + c.toNat / 64 < 64 := by omega
  have fourthSmall : c.toNat % 64 < 64 := by omega
  have valid := not_invalidGroup (basisChar_valid firstSmall) (basisChar_valid secondSmall) (fun _ => basisChar_valid thirdSmall) fun _ =>
    basisChar_valid fourthSmall
  rw [groupOctets, if_neg valid, if_neg (char64_basisChar _ thirdSmall).2.1, if_neg (char64_basisChar _ fourthSmall).2.1,
    firstOctet_basisChar firstSmall secondSmall, secondOctet_basisChar secondSmall thirdSmall, thirdOctet_basisChar thirdSmall fourthSmall]
  have firstSame : a.toNat / 4 * 4 + (a.toNat % 4 * 16 + b.toNat / 16) / 16 = a.toNat := by omega
  have secondSame : (a.toNat % 4 * 16 + b.toNat / 16) % 16 * 16 + (b.toNat % 16 * 4 + c.toNat / 64) / 4 = b.toNat := by omega
  have thirdSame : (b.toNat % 16 * 4 + c.toNat / 64) % 4 * 64 + c.toNat % 64 = c.toNat := by omega
  rw [ofNat_toNat_eq firstSame, ofNat_toNat_eq secondSame, ofNat_toNat_eq thirdSame]

theorem groupOctets_two : groupOctets (basisChar (a.toNat >>> 2)) (basisChar (((a.toNat <<< 4) &&& 0x30) ||| (b.toNat >>> 4)))
    (basisChar ((b.toNat <<< 2) &&& 0x3c)) (ascii '=') = some [a, b] := by
  have aBound := a.toNat_lt
  have bBound := b.toNat_lt
  obtain ⟨first, -, second, third, -, -⟩ := encodedValues a b 0
  rw [first, second, third]
  have firstSmall : a.toNat / 4 < 64 := by omega
  have secondSmall : a.toNat % 4 * 16 + b.toNat / 16 < 64 := by omega
  have thirdSmall : b.toNat % 16 * 4 < 64 := by omega
  have valid := not_invalidGroup (basisChar_valid firstSmall) (basisChar_valid secondSmall) (fun _ => basisChar_valid thirdSmall) (absurd rfl)
  rw [groupOctets, if_neg valid, if_neg (char64_basisChar _ thirdSmall).2.1, if_pos rfl, firstOctet_basisChar firstSmall secondSmall,
    secondOctet_basisChar secondSmall thirdSmall]
  have firstSame : a.toNat / 4 * 4 + (a.toNat % 4 * 16 + b.toNat / 16) / 16 = a.toNat := by omega
  have secondSame : (a.toNat % 4 * 16 + b.toNat / 16) % 16 * 16 + b.toNat % 16 * 4 / 4 = b.toNat := by omega
  rw [ofNat_toNat_eq firstSame, ofNat_toNat_eq secondSame]

theorem groupOctets_one :
    groupOctets (basisChar (a.toNat >>> 2)) (basisChar ((a.toNat <<< 4) &&& 0x30)) (ascii '=') (ascii '=') = some [a] := by
  have aBound := a.toNat_lt
  obtain ⟨first, second, -⟩ := encodedValues a 0 0
  rw [first, second]
  have firstSmall : a.toNat / 4 < 64 := by omega
  have secondSmall : a.toNat % 4 * 16 < 64 := by omega
  have valid := not_invalidGroup (basisChar_valid firstSmall) (basisChar_valid secondSmall) (absurd rfl) (absurd rfl)
  rw [groupOctets, if_neg valid, if_pos rfl, firstOctet_basisChar firstSmall secondSmall]
  have firstSame : a.toNat / 4 * 4 + a.toNat % 4 * 16 / 16 = a.toNat := by omega
  rw [ofNat_toNat_eq firstSame]

end Group

theorem textOctets_encodeBase64 (text : List UInt8) : textOctets (encodeBase64 text) = some text := by
  induction text using encodeBase64.induct with
  | case1 => rfl
  | case2 a =>
      rw [encodeBase64, textOctets, groupOctets_one]
      rfl
  | case3 a b =>
      rw [encodeBase64, textOctets, groupOctets_two]
      rfl
  | case4 a b c rest ih =>
      rw [encodeBase64, textOctets, groupOctets_three, ih]
      rfl

theorem withoutPlus_encodeBase64 (text : List UInt8) : withoutPlus (encodeBase64 text) = encodeBase64 text := by
  have noBlank : ∀ {first second : UInt8} {rest : List UInt8}, second ≠ ascii ' ' → withoutPlus (first :: second :: rest) = first :: second :: rest := by
    intro first second rest notBlank
    refine if_neg fun isPrefix => ?_
    have both := (List.cons_prefix_cons.mp isPrefix).2
    exact notBlank (List.cons_prefix_cons.mp both).1.symm
  induction text using encodeBase64.induct with
  | case1 => rfl
  | case2 a =>
      have aBound := a.toNat_lt
      rw [encodeBase64, (encodedValues a 0 0).2.1]
      exact noBlank (char64_basisChar _ (by omega)).2.2
  | case3 a b =>
      have bBound := b.toNat_lt
      rw [encodeBase64, (encodedValues a b 0).2.2.1]
      exact noBlank (char64_basisChar _ (by omega)).2.2
  | case4 a b c rest _ =>
      have bBound := b.toNat_lt
      rw [encodeBase64, (encodedValues a b c).2.2.1]
      exact noBlank (char64_basisChar _ (by omega)).2.2

/-- A negative length gives NULL, and any other one that the input has is decoded in bounds. -/
theorem decodeBase64_inside (block : OutputBlock) {input : List UInt8} {len : Int} (within : len ≤ input.length) :
    ∃ result, decodeBase64 block input len = some result := by
  rcases Int.lt_or_le len 0 with negative | positive
  · exact ⟨none, by rw [decodeBase64, if_pos negative]⟩
  · obtain ⟨len, rfl⟩ := Int.eq_ofNat_of_zero_le positive
    have result := decodeBase64_result block (Int.ofNat_le.mp within)
    split at result
    · exact ⟨none, result⟩
    · split_ifs at result
      · obtain ⟨rest, decoded⟩ := result
        exact ⟨_, decoded⟩
      · exact ⟨none, result⟩

/-- What was encoded is decoded when it fits in the block, every access is in bounds, and an invalid group gives NULL. -/
theorem decodeBase64_encodeBase64 (block : OutputBlock) :
    (∀ text, text.length ≤ 512 →
        ∃ rest, decodeBase64 block (encodeBase64 text) (encodeBase64 text).length = some (some (text ++ 0 :: rest))) ∧
      (∀ text, 512 < text.length → decodeBase64 block (encodeBase64 text) (encodeBase64 text).length = some none) ∧
      (∀ input (len : Int), len ≤ input.length → decodeBase64 block input len ≠ none) ∧
      (∀ input (len : Int), len ≤ input.length → HasInvalidGroup (withoutPlus (input.take len.toNat)) → decodeBase64 block input len = some none) := by
  have decoded : ∀ text, if text.length < OUTPUT_SIZE then
      ∃ rest, decodeBase64 block (encodeBase64 text) (encodeBase64 text).length = some (some (text ++ 0 :: rest))
      else decodeBase64 block (encodeBase64 text) (encodeBase64 text).length = some none := by
    intro text
    have result := decodeBase64_result block (Nat.le_refl (encodeBase64 text).length)
    rw [List.take_length, withoutPlus_encodeBase64, textOctets_encodeBase64] at result
    exact result
  refine ⟨?_, ?_, ?_, ?_⟩
  · intro text short
    have result := decoded text
    have fits : text.length < OUTPUT_SIZE := Nat.lt_succ_of_le short
    rwa [if_pos fits] at result
  · intro text long
    have result := decoded text
    have full : ¬ text.length < OUTPUT_SIZE := Nat.not_lt.mpr long
    rwa [if_neg full] at result
  · intro input len within outside
    obtain ⟨result, inside⟩ := decodeBase64_inside block within
    rw [inside] at outside
    cases outside
  · intro input len within invalid
    rcases Int.lt_or_le len 0 with negative | positive
    · rw [decodeBase64, if_pos negative]
    · obtain ⟨len, rfl⟩ := Int.eq_ofNat_of_zero_le positive
      have result := decodeBase64_result block (Int.ofNat_le.mp within)
      rw [Int.toNat_natCast] at invalid
      rw [invalid.none] at result
      exact result

end Etpan.DataTypes
