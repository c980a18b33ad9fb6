import Etpan.Data.Delimited
import Etpan.DataTypes.Mailjson

namespace Etpan.DataTypes

open Etpan.Data

/-! On a JSON text the scan for duplicate keys keeps in step with the grammar. -/

def Rest (data : List UInt8) (pos : Nat) (rest : List UInt8) : Prop := ∃ before, data = before ++ rest ∧ before.length = pos

variable {tokener : Tokener} {data rest part : List UInt8} {pos : Nat}

theorem Rest.length (here : Rest data pos rest) : data.length = pos + rest.length := by
  obtain ⟨before, rfl, rfl⟩ := here
  rw [List.length_append]

theorem Rest.drop (here : Rest data pos rest) : data.drop pos = rest := by
  obtain ⟨before, rfl, rfl⟩ := here
  exact List.drop_left

theorem Rest.next (here : Rest data pos (part ++ rest)) : Rest data (pos + part.length) rest := by
  obtain ⟨before, rfl, rfl⟩ := here
  exact ⟨before ++ part, by rw [List.append_assoc], by rw [List.length_append]⟩

theorem Rest.tail {ch : UInt8} (here : Rest data pos (ch :: rest)) : Rest data (pos + 1) rest :=
  @Rest.next data rest [ch] pos here

theorem Rest.read {ch : UInt8} (here : Rest data pos (ch :: rest)) : readAt data pos = .ok ch := by
  obtain ⟨before, rfl, rfl⟩ := here
  rw [readAt, List.getElem?_append_right (le_refl _), Nat.sub_self]
  rfl

theorem Rest.inside {ch : UInt8} (here : Rest data pos (ch :: rest)) : pos < data.length := by
  have length := here.length
  simp only [List.length_cons] at length
  omega

theorem Rest.hasAt {ch : UInt8} (here : Rest data pos (ch :: rest)) (wanted : UInt8) :
    hasAt data pos wanted = .ok (decide (ch = wanted)) := by
  rw [DataTypes.hasAt, if_pos here.inside, here.read]

theorem skipWhile_rest {skipped : UInt8 → Bool} (here : Rest data pos (part ++ rest)) (skips : ∀ ch ∈ part, skipped ch = true)
    (stops : StopsAt (!skipped ·) rest) : skipWhile data skipped pos = .ok (pos + part.length) := by
  induction part generalizing pos with
  | nil =>
      rw [List.nil_append] at here
      rw [skipWhile]
      cases rest with
      | nil =>
          have length := here.length
          rw [if_neg (by simp only [List.length_nil] at length; omega)]
          rfl
      | cons ch others =>
          rw [if_pos here.inside, here.read]
          have passed : skipped ch = false := by simpa using stopsAt_cons.mp stops
          simp only [passed]
          rfl
  | cons ch part ih =>
      rw [List.cons_append] at here
      rw [skipWhile, if_pos here.inside, here.read]
      simp only [skips ch (by simp), if_true]
      rw [ih here.tail (fun other member => skips other (by simp [member])), List.length_cons]
      congr 1
      omega

theorem stringLoop_plain (here : Rest data pos (part ++ rest)) (plain : ∀ ch ∈ part, ch ≠ ascii '"' ∧ ch ≠ ascii '\\') :
    stringLoop data pos = stringLoop data (pos + part.length) := by
  induction part generalizing pos with
  | nil => rfl
  | cons ch part ih =>
      rw [List.cons_append] at here
      obtain ⟨notQuote, notEscape⟩ := plain ch (by simp)
      rw [stringLoop, if_pos here.inside, here.read]
      simp only [if_neg notQuote, if_neg notEscape]
      rw [ih here.tail fun other member => plain other (by simp [member]), List.length_cons]
      congr 1
      omega

theorem utf8_plain {character : Char} (notQuote : character ≠ '"') (notEscape : character ≠ '\\') :
    ∀ ch ∈ String.utf8EncodeChar character, ch ≠ ascii '"' ∧ ch ≠ ascii '\\' := by
  have different : character.val.toNat ≠ 34 ∧ character.val.toNat ≠ 92 := by
    constructor
    · intro same
      exact notQuote (Char.toNat_inj.mp same)
    · intro same
      exact notEscape (Char.toNat_inj.mp same)
  have octets : ∀ number : Nat, number < 256 → number ≠ 34 → number ≠ 92 →
      UInt8.ofNat number ≠ ascii '"' ∧ UInt8.ofNat number ≠ ascii '\\' := by
    intro number small quote escape
    constructor <;> intro same
    · have value := congrArg UInt8.toNat same
      rw [UInt8.toNat_ofNat', Nat.mod_eq_of_lt small] at value
      exact quote value
    · have value := congrArg UInt8.toNat same
      rw [UInt8.toNat_ofNat', Nat.mod_eq_of_lt small] at value
      exact escape value
  intro ch member
  rw [String.utf8EncodeChar] at member
  split_ifs at member with one two three
  all_goals simp only [List.mem_cons, List.not_mem_nil, or_false] at member
  · subst member
    exact octets _ (by omega) different.1 different.2
  · rcases member with rfl | rfl <;> exact octets _ (by omega) (by omega) (by omega)
  · rcases member with rfl | rfl | rfl <;> exact octets _ (by omega) (by omega) (by omega)
  · rcases member with rfl | rfl | rfl | rfl <;> exact octets _ (by omega) (by omega) (by omega)

theorem stringLoop_item {item : StringItem} (valid : item.Valid) (here : Rest data pos (item.text ++ rest)) :
    stringLoop data pos = stringLoop data (pos + item.text.length) := by
  cases item with
  | plain character => exact stringLoop_plain here (utf8_plain valid.2.1 valid.2.2)
  | escape letter =>
      have letterHere : Rest data (pos + 1) (letter :: rest) := Rest.tail here
      have notU : letter ≠ ascii 'u' := by
        intro same
        rw [StringItem.Valid, same] at valid
        exact absurd valid (by decide)
      have inside := letterHere.inside
      rw [stringLoop, if_pos (Rest.inside here), Rest.read here]
      simp only [show ascii '\\' ≠ ascii '"' by decide, if_false, if_true]
      rw [if_neg (by omega), letterHere.read]
      simp only [if_neg notU]
      rfl
  | unicode first second third fourth =>
      have letterHere : Rest data (pos + 1) (ascii 'u' :: first :: second :: third :: fourth :: rest) := Rest.tail here
      have length := letterHere.length
      simp only [List.length_cons] at length
      rw [stringLoop, if_pos (Rest.inside here), Rest.read here]
      simp only [show ascii '\\' ≠ ascii '"' by decide, if_false, if_true]
      rw [if_neg (by omega), letterHere.read]
      simp only [if_true]
      rw [if_neg (by omega)]
      rfl

theorem stringLoop_items {items : List StringItem} (valid : ∀ item ∈ items, item.Valid)
    (here : Rest data pos (items.flatMap StringItem.text ++ (ascii '"' :: rest))) :
    stringLoop data pos = .ok (some (pos + (items.flatMap StringItem.text).length + 1)) := by
  induction items generalizing pos with
  | nil =>
      have quote : Rest data pos (ascii '"' :: rest) := here
      rw [stringLoop, if_pos quote.inside, quote.read]
      rfl
  | cons item items ih =>
      rw [List.flatMap_cons, List.append_assoc] at here
      rw [stringLoop_item (valid item (by simp)) here, ih (fun other member => valid other (by simp [member])) here.next,
        List.flatMap_cons, List.length_append]
      congr 3
      omega

theorem scanString_token {items : List StringItem} (valid : ∀ item ∈ items, item.Valid)
    (here : Rest data pos (stringToken items ++ rest)) :
    scanString data pos = .ok (some (pos + (stringToken items).length)) := by
  have quote : Rest data pos (ascii '"' :: (items.flatMap StringItem.text ++ (ascii '"' :: rest))) := by
    simpa [stringToken] using here
  have inside := quote.inside
  rw [scanString, if_neg (by omega), quote.read]
  simp only [ne_eq, not_true_eq_false, if_false]
  rw [stringLoop_items valid quote.tail, stringToken, List.length_cons, List.length_append, List.length_singleton]
  congr 2
  omega

/-- What is known of json-c: on a string of the grammar its tokener makes the text that the
string stands for. -/
def DecodesStrings (tokener : Tokener) : Prop :=
  ∀ items : List StringItem, (∀ item ∈ items, item.Valid) → tokener (stringToken items) = some (unescape items)

theorem decodeKey_token (decodes : DecodesStrings tokener) (small : data.length < intMax) {items : List StringItem}
    (valid : ∀ item ∈ items, item.Valid) (free : NulFree (unescape items)) (here : Rest data pos (stringToken items ++ rest)) :
    decodeKey tokener data pos (stringToken items).length = some (unescape items) := by
  have length := here.length
  rw [List.length_append] at length
  rw [decodeKey, if_neg (by omega), here.drop, List.take_left, decodes items valid, Option.map_some, cString_eq_self free]

def isScalarOctet (byte : UInt8) : Bool := isDigit byte || isLower byte || byte ∈ asciiText "-+.E"
where
  isLower (byte : UInt8) : Bool := ascii 'a' ≤ byte && byte ≤ ascii 'z'

def Octets (language : Language UInt8) : Prop := ∀ text ∈ language, ∀ byte ∈ text, isScalarOctet byte = true

theorem Octets.mul {left right : Language UInt8} (leftOctets : Octets left) (rightOctets : Octets right) : Octets (left * right) := by
  intro text member byte inText
  obtain ⟨first, inLeft, second, inRight, rfl⟩ := Language.mem_mul.mp member
  rcases List.mem_append.mp inText with early | later
  · exact leftOctets first inLeft byte early
  · exact rightOctets second inRight byte later

theorem Octets.add {left right : Language UInt8} (leftOctets : Octets left) (rightOctets : Octets right) : Octets (left + right) := by
  intro text member byte inText
  rcases member with inLeft | inRight
  · exact leftOctets text inLeft byte inText
  · exact rightOctets text inRight byte inText

theorem octets_one : Octets 1 := by
  intro text member byte inText
  rw [(Language.mem_one text).mp member] at inText
  cases inText

theorem octets_terminal {literal : String} (octets : ∀ byte, tolower byte ∈ (asciiText literal).map tolower → isScalarOctet byte = true) :
    Octets (terminal literal) := by
  intro text member byte inText
  refine octets byte ?_
  have same : text.map tolower = (asciiText literal).map tolower := member
  rw [← same]
  exact List.mem_map_of_mem inText

theorem octets_octet {isMember : UInt8 → Bool} (octets : ∀ byte, isMember byte = true → isScalarOctet byte = true) :
    Octets (octet isMember) := by
  rintro text ⟨byte, member, rfl⟩ other inText
  rw [List.mem_singleton.mp inText]
  exact octets byte member

theorem octets_star {isMember : UInt8 → Bool} (octets : ∀ byte, isMember byte = true → isScalarOctet byte = true) :
    Octets (KStar.kstar (octet isMember)) :=
  fun _ member byte inText => octets byte (mem_octets.mp member byte inText)

theorem digit_scalar : ∀ byte, isDigit byte = true → isScalarOctet byte = true := forall_octet (by decide +kernel)

theorem octets_jsonNumber : Octets jsonNumber := by
  have digits : Octets (digit * KStar.kstar digit) := (octets_octet digit_scalar).mul (octets_star digit_scalar)
  have nonzero : ∀ byte, (isDigit byte && byte ≠ ascii '0') = true → isScalarOctet byte = true := forall_octet (by decide +kernel)
  have sign : Octets (terminal "-") := octets_terminal (forall_octet (by decide +kernel))
  have plus : Octets (terminal "+") := octets_terminal (forall_octet (by decide +kernel))
  have dot : Octets (terminal ".") := octets_terminal (forall_octet (by decide +kernel))
  have exponent : Octets (terminal "e") := octets_terminal (forall_octet (by decide +kernel))
  have zero : Octets (terminal "0") := octets_terminal (forall_octet (by decide +kernel))
  exact (octets_one.add sign).mul ((zero.add ((octets_octet nonzero).mul (octets_star digit_scalar))).mul
    ((octets_one.add (dot.mul digits)).mul (octets_one.add (exponent.mul ((octets_one.add (sign.add plus)).mul digits)))))

theorem nil_not_mem_jsonNumber : [] ∉ jsonNumber := by
  intro member
  obtain ⟨sign, _, number, inNumber, empty⟩ := Language.mem_mul.mp member
  obtain ⟨_, numberEmpty⟩ := List.append_eq_nil_iff.mp empty
  obtain ⟨integer, isInteger, behind, _, parts⟩ := Language.mem_mul.mp inNumber
  rw [numberEmpty] at parts
  obtain ⟨integerEmpty, _⟩ := List.append_eq_nil_iff.mp parts
  rw [integerEmpty] at isInteger
  rcases isInteger with zero | others
  · exact absurd (show [].map tolower = (asciiText "0").map tolower from zero) (by decide)
  · obtain ⟨first, ⟨byte, _, isByte⟩, _, _, joined⟩ := Language.mem_mul.mp others
    rw [isByte] at joined
    cases joined

theorem isScalar_octets {token : List UInt8} (scalar : IsScalar token) :
    token ≠ [] ∧ ∀ byte ∈ token, isScalarOctet byte = true := by
  rcases scalar with rfl | rfl | rfl | number
  · exact ⟨by decide +kernel, by decide +kernel⟩
  · exact ⟨by decide +kernel, by decide +kernel⟩
  · exact ⟨by decide +kernel, by decide +kernel⟩
  · exact ⟨fun empty => nil_not_mem_jsonNumber (empty ▸ number), octets_jsonNumber token number⟩

theorem scalarOctet_facts : ∀ byte, isScalarOctet byte = true →
    endsScalar byte = false ∧ isJsonSpace byte = false ∧ byte ≠ ascii '{' ∧ byte ≠ ascii '[' ∧ byte ≠ ascii '"' :=
  forall_octet (by decide +kernel)

end Etpan.DataTypes
