import Etpan.DataTypes.MailjsonExact

namespace Etpan.DataTypes

open Etpan.Data

/-! On a JSON text the scan for duplicate keys finds exactly the duplicates. -/

variable {tokener : Tokener} {data : List UInt8}

/-- A scan that stops at a position if the keys are unique, and else fails. -/
def Judged (unique : Prop) (stop : Nat) (outcome : Scan (Option Nat)) : Prop :=
  (unique → outcome = .ok (some stop)) ∧ (¬ unique → outcome = .ok none)

theorem Judged.of_eq {unique : Prop} {stop : Nat} {outcome : Scan (Option Nat)} (holds : unique)
    (stopped : outcome = .ok (some stop)) : Judged unique stop outcome :=
  ⟨fun _ => stopped, fun fails => absurd holds fails⟩

theorem Judged.failed {unique : Prop} {stop : Nat} {outcome : Scan (Option Nat)} (fails : ¬ unique)
    (stopped : outcome = .ok none) : Judged unique stop outcome :=
  ⟨fun holds => absurd holds fails, fun _ => stopped⟩

theorem Judged.congr {unique unique' : Prop} {stop stop' : Nat} {outcome : Scan (Option Nat)} (judged : Judged unique stop outcome)
    (same : unique' ↔ unique) (sameStop : stop' = stop) : Judged unique' stop' outcome := by
  rw [sameStop]
  exact ⟨fun holds => judged.1 (same.mp holds), fun fails => judged.2 fun holds => fails (same.mpr holds)⟩

/-! ### Where the parts of a text begin and end -/

theorem endsScalar_space : ∀ byte, isJsonSpace byte = true → endsScalar byte = true := forall_octet (by decide +kernel)

theorem not_endsScalar : ∀ byte, endsScalar byte = false →
    (!isJsonSpace byte) = true ∧ byte ≠ ascii ']' ∧ byte ≠ ascii '}' ∧ byte ≠ ascii ',' :=
  forall_octet (by decide +kernel)

theorem stopsAt_blank {blank rest : List UInt8} (isBlank : IsBlank blank) (stops : StopsAt endsScalar rest) :
    StopsAt endsScalar (blank ++ rest) := by
  cases blank with
  | nil => exact stops
  | cons byte blank => exact stopsAt_cons.mpr (endsScalar_space byte (isBlank byte (by simp)))

theorem scanWhitespace_blank {pos : Nat} {blank rest : List UInt8} (isBlank : IsBlank blank)
    (here : Rest data pos (blank ++ rest)) (stops : StopsAt (!isJsonSpace ·) rest) :
    scanWhitespace data pos = .ok (pos + blank.length) :=
  skipWhile_rest here isBlank stops

theorem Json.starts {value : Json} (valid : value.Valid) : ∃ ch others, value.text = ch :: others ∧ endsScalar ch = false := by
  cases value with
  | scalar token =>
      obtain ⟨nonempty, octets⟩ := isScalar_octets (show IsScalar token from valid)
      obtain ⟨ch, others, rfl⟩ := List.exists_cons_of_ne_nil nonempty
      exact ⟨ch, others, rfl, (scalarOctet_facts ch (octets ch (by simp))).1⟩
  | string items => exact ⟨_, _, rfl, by decide⟩
  | array blank elements => exact ⟨_, _, rfl, by decide⟩
  | object blank members => exact ⟨_, _, rfl, by decide⟩

theorem Json.stopsAt {value : Json} (valid : value.Valid) (rest : List UInt8) : StopsAt (!isJsonSpace ·) (value.text ++ rest) := by
  obtain ⟨ch, others, starts, notEnd⟩ := Json.starts valid
  rw [starts]
  exact stopsAt_cons.mpr (not_endsScalar ch notEnd).1

def ValueScan (tokener : Tokener) (data : List UInt8) (value : Json) : Prop :=
  ∀ steps pos before others, 3 * (data.length - pos) + 1 ≤ steps → IsBlank before →
    Rest data pos (before ++ (value.text ++ others)) → StopsAt endsScalar others →
    Judged value.UniqueKeys (pos + before.length + value.text.length) (scanValue tokener data steps pos)

theorem scanValue_at {steps pos : Nat} {before rest : List UInt8} {ch : UInt8} (isBlank : IsBlank before)
    (here : Rest data pos (before ++ ch :: rest)) (notSpace : (!isJsonSpace ch) = true) :
    scanValue tokener data (steps + 1) pos =
      if ch = ascii '{' then scanObject tokener data steps (pos + before.length)
      else if ch = ascii '[' then scanArray tokener data steps (pos + before.length)
      else if ch = ascii '"' then scanString data (pos + before.length)
      else (scanScalar data (pos + before.length)).map some := by
  have there := here.next
  have inside := there.inside
  rw [scanValue, scanWhitespace_blank isBlank here (stopsAt_cons.mpr notSpace)]
  simp only
  rw [if_neg (by omega), there.read]

theorem scanValue_scalar {token : List UInt8} (scalar : IsScalar token) : ValueScan tokener data (.scalar token) := by
  intro steps pos before others fuel isBlank here stops
  obtain ⟨nonempty, octets⟩ := isScalar_octets scalar
  obtain ⟨ch, token, rfl⟩ := List.exists_cons_of_ne_nil nonempty
  obtain ⟨steps, rfl⟩ := Nat.exists_eq_add_of_le' (show 1 ≤ steps by omega)
  obtain ⟨_, notSpace, notBrace, notBracket, notQuote⟩ := scalarOctet_facts ch (octets ch (by simp))
  refine Judged.of_eq trivial ?_
  rw [scanValue_at isBlank here (by rw [notSpace]; rfl), if_neg notBrace, if_neg notBracket, if_neg notQuote, scanScalar,
    show skipWhile data (!endsScalar ·) (pos + before.length) = .ok (pos + before.length + (ch :: token).length) from
      skipWhile_rest here.next ?_ ?_]
  · rfl
  · intro byte member
    rw [(scalarOctet_facts byte (octets byte member)).1]
    rfl
  · exact stops.mono fun byte ends => by rw [ends]; rfl

theorem scanValue_string {items : List StringItem} (valid : ∀ item ∈ items, item.Valid) :
    ValueScan tokener data (.string items) := by
  intro steps pos before others fuel isBlank here stops
  obtain ⟨steps, rfl⟩ := Nat.exists_eq_add_of_le' (show 1 ≤ steps by omega)
  refine Judged.of_eq trivial ?_
  rw [scanValue_at isBlank here (by decide), if_neg (by decide), if_neg (by decide), if_pos rfl,
    scanString_token valid here.next]
  rfl

def ElementsScan (tokener : Tokener) (data : List UInt8) : JsonElements → Prop
  | .nil => True
  | .cons _ value after rest => ∀ steps pos others, 3 * (data.length - pos) + 2 ≤ steps →
      Rest data pos (value.text ++ (after ++ (rest.tail ++ others))) →
      Judged (value.UniqueKeys ∧ rest.UniqueKeys) (pos + value.text.length + after.length + rest.tail.length)
        (arrayLoop tokener data steps pos)

theorem elements_tail_stops (elements : JsonElements) (others : List UInt8) :
    StopsAt endsScalar (elements.tail ++ others) ∧ StopsAt (!isJsonSpace ·) (elements.tail ++ others) := by
  cases elements with
  | nil => exact ⟨stopsAt_cons.mpr (by decide), stopsAt_cons.mpr (by decide)⟩
  | cons => exact ⟨stopsAt_cons.mpr (by decide), stopsAt_cons.mpr (by decide)⟩

theorem arrayLoop_cons {before after : List UInt8} {value : Json} {rest : JsonElements} (isBlank : IsBlank after)
    (restValid : rest.Valid) (valueScan : ValueScan tokener data value) (restScan : ElementsScan tokener data rest) :
    ElementsScan tokener data (.cons before value after rest) := by
  intro steps pos others fuel here
  obtain ⟨steps, rfl⟩ := Nat.exists_eq_add_of_le' (show 1 ≤ steps by omega)
  obtain ⟨tailEnds, tailStops⟩ := elements_tail_stops rest others
  have judged := valueScan steps pos [] _ (by omega) (fun byte member => by cases member) here (stopsAt_blank isBlank tailEnds)
  rw [arrayLoop]
  by_cases unique : value.UniqueKeys
  · have behind := here.next
    have tail := behind.next
    rw [judged.1 unique]
    simp only [List.length_nil, Nat.add_zero]
    rw [scanWhitespace_blank isBlank behind tailStops]
    cases rest with
    | nil =>
        have closing : Rest data (pos + value.text.length + after.length) (ascii ']' :: others) := tail
        simp only [closing.hasAt]
        exact Judged.of_eq ⟨unique, trivial⟩ rfl
    | cons before' value' after' rest' =>
        obtain ⟨beforeBlank, valueValid, _, _⟩ := restValid
        have comma : Rest data (pos + value.text.length + after.length)
            (ascii ',' :: (before' ++ (value'.text ++ (after' ++ (rest'.tail ++ others))))) := by
          simpa [JsonElements.tail] using tail
        have next := comma.tail
        have length := comma.length
        simp only [List.length_cons] at length
        simp only [comma.hasAt]
        rw [scanWhitespace_blank beforeBlank next (Json.stopsAt valueValid _)]
        refine (restScan steps _ others (by omega) next.next).congr (and_iff_right unique) ?_
        simp only [JsonElements.tail, List.length_cons, List.length_append]
        omega
  · rw [judged.2 unique]
    exact Judged.failed (fun holds => unique holds.1) rfl

theorem scanValue_array {blank : List UInt8} {elements : JsonElements} (isBlank : IsBlank blank) (valid : elements.Valid)
    (elementsScan : ElementsScan tokener data elements) : ValueScan tokener data (.array blank elements) := by
  intro steps pos before others fuel beforeBlank here stops
  have opening : Rest data (pos + before.length) (ascii '[' :: (elements.text blank ++ others)) := here.next
  have inside := opening.inside
  obtain ⟨steps, rfl⟩ := Nat.exists_eq_add_of_le' (show 2 ≤ steps by omega)
  rw [scanValue_at beforeBlank here (by decide), if_neg (by decide), if_pos rfl, scanArray]
  have behind := opening.tail
  cases elements with
  | nil =>
      rw [JsonElements.text, List.append_assoc] at behind
      have closing : Rest data (pos + before.length + 1 + blank.length) (ascii ']' :: others) := behind.next
      rw [scanWhitespace_blank isBlank behind (stopsAt_cons.mpr (by decide))]
      simp only [closing.hasAt]
      refine Judged.congr (Judged.of_eq trivial rfl) Iff.rfl ?_
      simp only [Json.text, JsonElements.text, List.length_cons, List.length_append, List.length_nil]
      omega
  | cons before' value after rest =>
      obtain ⟨blank', valueValid, _, _⟩ := valid
      have first : Rest data (pos + before.length + 1) (before' ++ (value.text ++ (after ++ (rest.tail ++ others)))) := by
        simpa [JsonElements.text] using behind
      have start := first.next
      obtain ⟨ch, text, starts, notEnd⟩ := Json.starts valueValid
      have startsHere : Rest data (pos + before.length + 1 + before'.length) (ch :: (text ++ (after ++ (rest.tail ++ others)))) := by
        simpa [starts] using start
      rw [scanWhitespace_blank blank' first (Json.stopsAt valueValid _)]
      simp only [startsHere.hasAt, (not_endsScalar ch notEnd).2.1, decide_false]
      refine (elementsScan steps _ others (by omega) start).congr Iff.rfl ?_
      simp only [Json.text, JsonElements.text, List.length_cons, List.length_append]
      omega

def MembersScan (tokener : Tokener) (data : List UInt8) : JsonMembers → Prop
  | .nil => True
  | .cons _ key middle between value after rest => ∀ steps keys pos others, 3 * (data.length - pos) + 2 ≤ steps →
      Rest data pos (stringToken key ++ (middle ++ (ascii ':' :: (between ++ (value.text ++ (after ++ (rest.tail ++ others))))))) →
      keys.Nodup →
      Judged ((keys ++ unescape key :: rest.keys).Nodup ∧ value.UniqueKeys ∧ rest.UniqueKeys)
        (pos + (stringToken key).length + middle.length + 1 + between.length + value.text.length + after.length + rest.tail.length)
        (objectLoop tokener data steps keys pos)

theorem members_tail_stops (members : JsonMembers) (others : List UInt8) :
    StopsAt endsScalar (members.tail ++ others) ∧ StopsAt (!isJsonSpace ·) (members.tail ++ others) := by
  cases members with
  | nil => exact ⟨stopsAt_cons.mpr (by decide), stopsAt_cons.mpr (by decide)⟩
  | cons => exact ⟨stopsAt_cons.mpr (by decide), stopsAt_cons.mpr (by decide)⟩

theorem seen_iff (keys : List (List UInt8)) (key : List UInt8) :
    keys.any (fun other => strcmp other key = 0) = true ↔ key ∈ keys := by
  simp only [List.any_eq_true, decide_eq_true_eq, strcmp_eq_zero_iff, exists_eq_right]

theorem stringToken_stops (items : List StringItem) (rest : List UInt8) : StopsAt (!isJsonSpace ·) (stringToken items ++ rest) :=
  stopsAt_cons.mpr (by decide)

theorem objectLoop_cons (decodes : DecodesStrings tokener) (small : data.length < intMax)
    {before middle between after : List UInt8} {key : List StringItem} {value : Json} {rest : JsonMembers}
    (valid : (JsonMembers.cons before key middle between value after rest).Valid) (free : NulFree (unescape key))
    (valueScan : ValueScan tokener data value) (restScan : MembersScan tokener data rest) :
    MembersScan tokener data (.cons before key middle between value after rest) := by
  intro steps keys pos others fuel here distinct
  obtain ⟨_, keyValid, middleBlank, betweenBlank, valueValid, afterBlank, restValid⟩ := valid
  obtain ⟨steps, rfl⟩ := Nat.exists_eq_add_of_le' (show 1 ≤ steps by omega)
  have behindKey := here.next
  have colon := behindKey.next
  have valueHere := colon.tail
  have colonInside := colon.inside
  have behindValue := valueHere.next.next
  have tail := behindValue.next
  obtain ⟨tailEnds, tailStops⟩ := members_tail_stops rest others
  have judged := valueScan steps _ between _ (by omega) betweenBlank valueHere (stopsAt_blank afterBlank tailEnds)
  rw [objectLoop, scanString_token keyValid here]
  simp only [Nat.add_sub_cancel_left]
  rw [decodeKey_token decodes small keyValid free here]
  simp only [seen_iff]
  by_cases seen : unescape key ∈ keys
  · rw [if_pos seen]
    refine Judged.failed (fun holds => ?_) rfl
    exact (List.disjoint_of_nodup_append holds.1) seen (by simp)
  have distinct' : (keys ++ [unescape key]).Nodup :=
    distinct.append (List.nodup_singleton _) (List.disjoint_singleton.mpr seen)
  rw [if_neg seen, scanWhitespace_blank middleBlank behindKey (stopsAt_cons.mpr (by decide))]
  simp only [colon.hasAt, decide_true]
  by_cases unique : value.UniqueKeys
  · rw [judged.1 unique]
    simp only
    rw [scanWhitespace_blank afterBlank behindValue tailStops]
    cases rest with
    | nil =>
        have closing : Rest data (pos + (stringToken key).length + middle.length + 1 + between.length + value.text.length +
            after.length) (ascii '}' :: others) := tail
        simp only [closing.hasAt]
        exact Judged.of_eq ⟨distinct', unique, trivial⟩ rfl
    | cons before' key' middle' between' value' after' rest' =>
        obtain ⟨beforeBlank, _⟩ := restValid
        have comma : Rest data (pos + (stringToken key).length + middle.length + 1 + between.length + value.text.length +
            after.length) (ascii ',' :: (before' ++ (stringToken key' ++ (middle' ++ (ascii ':' ::
              (between' ++ (value'.text ++ (after' ++ (rest'.tail ++ others))))))))) := by
          simpa [JsonMembers.tail] using tail
        have next := comma.tail
        have length := comma.length
        simp only [List.length_cons] at length
        simp only [comma.hasAt]
        rw [scanWhitespace_blank beforeBlank next (stringToken_stops _ _)]
        refine (restScan steps _ _ others (by omega) next.next distinct').congr ?_ ?_
        · rw [List.append_assoc]
          simp only [List.singleton_append, JsonMembers.keys, JsonMembers.UniqueKeys, unique, true_and]
        · simp only [JsonMembers.tail, List.length_cons, List.length_append, List.length_nil]
          omega
  · rw [judged.2 unique]
    exact Judged.failed (fun holds => unique holds.2.1) rfl

theorem scanValue_object {blank : List UInt8} {members : JsonMembers} (isBlank : IsBlank blank) (valid : members.Valid)
    (membersScan : MembersScan tokener data members) : ValueScan tokener data (.object blank members) := by
  intro steps pos before others fuel beforeBlank here stops
  have opening : Rest data (pos + before.length) (ascii '{' :: (members.text blank ++ others)) := here.next
  have inside := opening.inside
  obtain ⟨steps, rfl⟩ := Nat.exists_eq_add_of_le' (show 2 ≤ steps by omega)
  rw [scanValue_at beforeBlank here (by decide), if_pos rfl, scanObject]
  have behind := opening.tail
  cases members with
  | nil =>
      rw [JsonMembers.text, List.append_assoc] at behind
      have closing : Rest data (pos + before.length + 1 + blank.length) (ascii '}' :: others) := behind.next
      rw [scanWhitespace_blank isBlank behind (stopsAt_cons.mpr (by decide))]
      simp only [closing.hasAt]
      refine Judged.congr (Judged.of_eq ⟨List.nodup_nil, trivial⟩ rfl) Iff.rfl ?_
      simp only [Json.text, JsonMembers.text, List.length_cons, List.length_append, List.length_nil]
      omega
  | cons before' key middle between value after rest =>
      obtain ⟨blank', _⟩ := valid
      have first : Rest data (pos + before.length + 1) (before' ++ (stringToken key ++ (middle ++ (ascii ':' ::
          (between ++ (value.text ++ (after ++ (rest.tail ++ others)))))))) := by
        simpa [JsonMembers.text] using behind
      have start := first.next
      have quote : Rest data (pos + before.length + 1 + before'.length) (ascii '"' :: _) := start
      rw [scanWhitespace_blank blank' first (stringToken_stops _ _)]
      simp only [quote.hasAt]
      refine (membersScan steps [] _ others (by omega) start List.nodup_nil).congr ?_ ?_
      · rw [List.nil_append]
        rfl
      · simp only [Json.text, JsonMembers.text, List.length_cons, List.length_append, List.length_nil]
        omega

mutual

theorem valueScan (decodes : DecodesStrings tokener) (small : data.length < intMax) :
    (value : Json) → value.Valid → value.EachKey NulFree → ValueScan tokener data value
  | .scalar _, valid, _ => scanValue_scalar valid
  | .string _, valid, _ => scanValue_string valid
  | .array _ elements, ⟨isBlank, valid⟩, free =>
      scanValue_array isBlank valid (elementsScan decodes small elements valid free)
  | .object _ members, ⟨isBlank, valid⟩, free =>
      scanValue_object isBlank valid (membersScan decodes small members valid free)

theorem elementsScan (decodes : DecodesStrings tokener) (small : data.length < intMax) :
    (elements : JsonElements) → elements.Valid → elements.EachKey NulFree → ElementsScan tokener data elements
  | .nil, _, _ => trivial
  | .cons _ value _ rest, ⟨_, valueValid, isBlank, restValid⟩, ⟨valueFree, restFree⟩ =>
      arrayLoop_cons isBlank restValid (valueScan decodes small value valueValid valueFree)
        (elementsScan decodes small rest restValid restFree)

theorem membersScan (decodes : DecodesStrings tokener) (small : data.length < intMax) :
    (members : JsonMembers) → members.Valid → members.EachKey NulFree → MembersScan tokener data members
  | .nil, _, _ => trivial
  | .cons _ _ _ _ value _ rest, valid, ⟨keyFree, valueFree, restFree⟩ =>
      objectLoop_cons decodes small valid keyFree (valueScan decodes small value valid.2.2.2.2.1 valueFree)
        (membersScan decodes small rest valid.2.2.2.2.2.2 restFree)

end

structure JsonText where
  before : List UInt8
  value : Json
  after : List UInt8
  beforeBlank : IsBlank before
  valid : value.Valid
  afterBlank : IsBlank after

def JsonText.text (text : JsonText) : List UInt8 := text.before ++ (text.value.text ++ text.after)

theorem duplicateKeysFound_text (decodes : DecodesStrings tokener) (text : JsonText) (small : text.text.length < intMax)
    (free : text.value.EachKey NulFree) {steps : Nat} (fuel : sufficientSteps text.text ≤ steps) :
    duplicateKeysFound tokener text.text steps = .ok 0 ↔ text.value.UniqueKeys := by
  have here : Rest text.text 0 (text.before ++ (text.value.text ++ text.after)) := ⟨[], rfl, rfl⟩
  have behind := here.next.next
  have length := behind.length
  have whole : Rest text.text (0 + text.before.length + text.value.text.length) (text.after ++ []) := by
    rw [List.append_nil]
    exact behind
  have ends : StopsAt endsScalar text.after := by
    rw [← List.append_nil text.after]
    exact stopsAt_blank text.afterBlank (stopsAt_nil _)
  have judged := valueScan decodes small text.value text.valid free steps 0 text.before text.after (by rw [sufficientSteps] at fuel; omega)
    text.beforeBlank here ends
  rw [duplicateKeysFound]
  constructor
  · intro passed
    by_contra shadowed
    rw [judged.2 shadowed] at passed
    cases passed
  · intro unique
    rw [judged.1 unique]
    simp only
    rw [scanWhitespace_blank text.afterBlank whole (stopsAt_nil _)]
    simp only [← length, ne_eq, not_true_eq_false, if_false]

/-- On every JSON text whose keys have no NUL the scan finds exactly the duplicate keys, and on
any octets it ends without reading beyond them. -/
theorem duplicateKeysFound_exact (decodes : DecodesStrings tokener) :
    (∀ (text : JsonText) (steps : Nat), text.text.length < intMax → text.value.EachKey NulFree → sufficientSteps text.text ≤ steps →
      (duplicateKeysFound tokener text.text steps = .ok 0 ↔ text.value.UniqueKeys)) ∧
    ∀ (data : List UInt8) (steps : Nat), sufficientSteps data ≤ steps →
      duplicateKeysFound tokener data steps = .ok 0 ∨ duplicateKeysFound tokener data steps = .ok 1 :=
  ⟨fun text _ small free fuel => duplicateKeysFound_text decodes text small free fuel,
    fun data _ enoughSteps => duplicateKeysFound_ends tokener data enoughSteps⟩

def readItems : List UInt8 → Option (List UInt8)
  | 92 :: 117 :: a :: b :: c :: d :: 92 :: 117 :: e :: f :: g :: h :: rest =>
      let high := codeUnit a b c d
      let low := codeUnit e f g h
      if 0xD800 ≤ high ∧ high < 0xDC00 ∧ 0xDC00 ≤ low ∧ low < 0xE000 then
        (readItems rest).map (String.utf8EncodeChar (characterOf (0x10000 + (high - 0xD800) * 0x400 + (low - 0xDC00))) ++ ·)
      else (readItems (92 :: 117 :: e :: f :: g :: h :: rest)).map (String.utf8EncodeChar (characterOf high) ++ ·)
  | 92 :: 117 :: a :: b :: c :: d :: rest =>
      (readItems rest).map (String.utf8EncodeChar (characterOf (codeUnit a b c d)) ++ ·)
  | 92 :: letter :: rest => (readItems rest).map (escapedOctet letter :: ·)
  | [34] => some []
  | byte :: rest => (readItems rest).map (byte :: ·)
  | [] => none

def readString : Tokener
  | 34 :: rest => readItems rest
  | _ => none

theorem readItems_plain {part rest : List UInt8} (plain : ∀ ch ∈ part, ch ≠ ascii '"' ∧ ch ≠ ascii '\\') :
    readItems (part ++ rest) = (readItems rest).map (part ++ ·) := by
  induction part with
  | nil => simp
  | cons ch part ih =>
      obtain ⟨notQuote, notEscape⟩ := plain ch (by simp)
      rw [List.cons_append, readItems]
      · rw [ih fun other member => plain other (by simp [member]), Option.map_map]
        rfl
      all_goals intros
      · exact notEscape ‹_›
      · exact notEscape ‹_›
      · exact notEscape ‹_›
      · exact notQuote ‹_›

theorem not_letter_u {letter : UInt8} (valid : (StringItem.escape letter).Valid) : letter ≠ 117 := by
  rintro rfl
  exact absurd (show 117 ∈ asciiText "\"\\/bfnrt" from valid) (by decide)

theorem unicode_of_text {items : List StringItem} {others : List UInt8} (valid : ∀ item ∈ items, item.Valid)
    (text : items.flatMap StringItem.text ++ [ascii '"'] = 92 :: 117 :: others) :
    ∃ e f g h rest, items = .unicode e f g h :: rest := by
  cases items with
  | nil => cases text
  | cons item rest =>
      have itemValid := valid item (by simp)
      cases item with
      | plain character =>
          obtain ⟨ch, behind, encoded⟩ := List.exists_cons_of_ne_nil (String.utf8EncodeChar_ne_nil (c := character))
          have apart := utf8_plain itemValid.2.1 itemValid.2.2 ch (by rw [encoded]; simp)
          rw [List.flatMap_cons, StringItem.text, encoded] at text
          exact absurd (List.cons_eq_cons.mp text).1 apart.2
      | escape letter => exact absurd (List.cons_eq_cons.mp (List.cons_eq_cons.mp text).2).1 (not_letter_u itemValid)
      | unicode e f g h => exact ⟨e, f, g, h, rest, rfl⟩

theorem readItems_items {items : List StringItem} (valid : ∀ item ∈ items, item.Valid) :
    readItems (items.flatMap StringItem.text ++ [ascii '"']) = some (unescape items) := by
  fun_induction unescape items with
  | case1 => rfl
  | case2 character rest ih =>
      have plain := valid (.plain character) (by simp)
      rw [List.flatMap_cons, List.append_assoc, StringItem.text, readItems_plain (utf8_plain plain.2.1 plain.2.2),
        ih fun other member => valid other (by simp [member])]
      rfl
  | case3 letter rest ih =>
      have notU := not_letter_u (valid (.escape letter) (by simp))
      show readItems (92 :: letter :: (rest.flatMap StringItem.text ++ [ascii '"'])) = _
      rw [readItems, ih fun other member => valid other (by simp [member])]
      · rfl
      all_goals intros
      all_goals exact notU ‹_›
  | case4 a b c d e f g h rest high low pair ih =>
      show readItems (92 :: 117 :: a :: b :: c :: d :: 92 :: 117 :: e :: f :: g :: h ::
        (rest.flatMap StringItem.text ++ [ascii '"'])) = _
      rw [readItems, if_pos pair, ih fun other member => valid other (by simp [member])]
      rfl
  | case5 a b c d e f g h rest high low apart ih =>
      have others := ih fun other member => valid other (by
        rcases List.mem_cons.mp member with rfl | member
        · simp
        · simp [member])
      show readItems (92 :: 117 :: a :: b :: c :: d :: 92 :: 117 :: e :: f :: g :: h ::
        (rest.flatMap StringItem.text ++ [ascii '"'])) = _
      rw [readItems, if_neg apart, show 92 :: 117 :: e :: f :: g :: h :: (rest.flatMap StringItem.text ++ [ascii '"']) =
        (StringItem.unicode e f g h :: rest).flatMap StringItem.text ++ [ascii '"'] from rfl, others]
      rfl
  | case6 a b c d rest next ih =>
      have restValid : ∀ item ∈ rest, item.Valid := fun other member => valid other (by simp [member])
      show readItems (92 :: 117 :: a :: b :: c :: d :: (rest.flatMap StringItem.text ++ [ascii '"'])) = _
      rw [readItems, ih restValid]
      · rfl
      · intro e f g h others text
        obtain ⟨e, f, g, h, behind, items⟩ := unicode_of_text restValid text
        exact next e f g h behind items

theorem readString_decodes : DecodesStrings readString := fun _ valid => readItems_items valid

def shadowed : JsonText where
  before := []
  value := .object [] (.cons [] [.plain 'a'] [] [] (.scalar (asciiText "true")) []
    (.cons [] [.unicode (ascii '0') (ascii '0') (ascii '6') (ascii '1')] [] [] (.scalar (asciiText "null")) [] .nil))
  after := []
  beforeBlank := fun _ member => by cases member
  valid := by
    simp [Json.Valid, JsonMembers.Valid, StringItem.Valid, IsBlank, IsScalar]
    decide
  afterBlank := fun _ member => by cases member

theorem shadowed_found : duplicateKeysFound readString shadowed.text (sufficientSteps shadowed.text) ≠ .ok 0 := by
  intro passed
  have unique := ((duplicateKeysFound_exact readString_decodes).1 shadowed _ (by decide)
    ⟨by decide, trivial, by decide, trivial, trivial⟩ (le_refl _)).mp passed
  exact absurd (show shadowed.value.UniqueKeys from unique).1 (by decide)

end Etpan.DataTypes
