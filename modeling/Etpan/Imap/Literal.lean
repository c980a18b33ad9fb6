import Etpan.Imap.Sender

namespace Etpan.Imap

open Etpan.Data Etpan.Stream

/-! Literals: the announced number and the octets that follow it. -/

/-- `len` octets from an address on; `none` when the allocated octets end before. -/
def readOctets (memory : List UInt8) (len : Nat) : Option (List UInt8) :=
  if len ≤ memory.length then some (memory.take len) else none

def literalCountSend (count : Nat) (literalplusEnabled : Bool) : Sending :=
  mailimapCharSend (ascii '{') ++ mailimapNumberSend (UInt32.ofNat count) ++
    (if literalplusEnabled then mailimapCharSend (ascii '+') else []) ++
    mailimapCharSend (ascii '}') ++ mailimapCrlfSend

def mailimapLiteralCountSend (count : Nat) : Sending := literalCountSend count false

def mailimapLiteralplusCountSend (count : Nat) : Sending := literalCountSend count true

def mailimapLiteralDataSend (literal : List UInt8) (len : Nat) : Option Sending :=
  (readOctets literal len).map mailimapSizedTokenSend

/-- `literal` is the memory from the string on. -/
def mailimapLiteralSend (literal : List UInt8) : Option Sending :=
  let len := (cString literal).length
  let literalLen := mailstreamGetDataCrlfSize (cString literal)
  (mailimapLiteralDataSend literal len).map (mailimapLiteralCountSend literalLen ++ ·)

/-- The octets sent are counted after the line breaks have been expanded, and that many are
read from the string before they are. -/
def mailimapLiteralplusSend (literal : List UInt8) : Option Sending :=
  let literalLen := mailstreamGetDataCrlfSize (cString literal)
  (mailimapLiteralDataSend literal literalLen).map (mailimapLiteralplusCountSend literalLen ++ ·)

/-- A literal for `s`: the announced number of octets, which are `s` with its line breaks
normalised. -/
def CarriesAnnounced (plus : Bool) (s : List UInt8) (sent : Option Sending) : Prop :=
  ∃ sending count data, sent = some sending ∧ Sending.text sending = literalHead plus count ++ data ∧
    data.length = count ∧ data = crlfBreaks s

/-- Every line break of the text is a CRLF; `afterCR` says that a CR was just read. -/
def crlfOnlyFrom (afterCR : Bool) : List UInt8 → Bool
  | [] => !afterCR
  | byte :: rest =>
      if byte = LF then afterCR && crlfOnlyFrom false rest
      else !afterCR && crlfOnlyFrom (byte = CR) rest

def CrlfOnly (text : List UInt8) : Prop := crlfOnlyFrom false text = true

instance (text : List UInt8) : Decidable (CrlfOnly text) :=
  inferInstanceAs (Decidable (crlfOnlyFrom false text = true))

/-- Normalising never shortens a text, and keeps its length only where nothing is to be
normalised.  After a CR, the LF that belongs to it counts as written already. -/
theorem crlfBreaksFrom_length (afterCR : Bool) (text : List UInt8) :
    text.length ≤ (crlfBreaksFrom afterCR text).length + afterCR.toNat ∧
      ((crlfBreaksFrom afterCR text).length + afterCR.toNat = text.length ↔ crlfOnlyFrom afterCR text = true) := by
  induction text generalizing afterCR with
  | nil => cases afterCR <;> simp [crlfBreaksFrom, crlfOnlyFrom]
  | cons byte rest ih =>
      have plain := ih false
      have broken := ih true
      simp only [Bool.toNat_false, Bool.toNat_true, Nat.add_zero] at plain broken
      rw [crlfBreaksFrom, crlfOnlyFrom]
      by_cases isLF : byte = LF
      · cases afterCR with
        | false => simp [isLF]; omega
        | true => simpa [isLF] using plain
      by_cases isCR : byte = CR
      · cases afterCR with
        | false =>
            simp [isCR, ← broken.2]
            omega
        | true => simp [isCR]; omega
      · cases afterCR with
        | false => simpa [isLF, isCR] using plain
        | true => simp [isLF, isCR]; omega

theorem crlfOnlyFrom_eq {afterCR : Bool} {text : List UInt8} (only : crlfOnlyFrom afterCR text = true) :
    text = (if afterCR then [LF] else []) ++ crlfBreaksFrom afterCR text := by
  induction text generalizing afterCR with
  | nil => cases afterCR <;> simp_all [crlfBreaksFrom, crlfOnlyFrom]
  | cons byte rest ih =>
      rw [crlfOnlyFrom] at only
      rw [crlfBreaksFrom]
      by_cases isLF : byte = LF
      · rw [if_pos isLF, Bool.and_eq_true] at only
        have tail := ih only.2
        simp only [Bool.false_eq_true, if_false, List.nil_append] at tail
        rw [if_pos isLF, only.1, ← tail, isLF]
        rfl
      · rw [if_neg isLF, Bool.and_eq_true, Bool.not_eq_true'] at only
        rw [if_neg isLF, only.1]
        have tail := ih only.2
        by_cases isCR : byte = CR
        · simp only [isCR, decide_true, if_true] at tail
          rw [if_pos isCR]
          simpa [isCR] using tail
        · simp only [isCR, decide_false, Bool.false_eq_true, if_false, List.nil_append] at tail
          rw [if_neg isCR]
          simpa using tail

theorem CrlfOnly.crlfBreaks {text : List UInt8} (only : CrlfOnly text) : crlfBreaks text = text :=
  (crlfOnlyFrom_eq only).symm

theorem crlfOnly_of_length {text : List UInt8} (short : (crlfBreaks text).length ≤ text.length) : CrlfOnly text := by
  have grown := crlfBreaksFrom_length false text
  simp only [Bool.toNat_false, Nat.add_zero] at grown
  exact grown.2.mp (Nat.le_antisymm short grown.1)

theorem crlfBreaksFrom_concat {byte : UInt8} (notLF : byte ≠ LF) (notCR : byte ≠ CR) (afterCR : Bool) (text : List UInt8) :
    crlfBreaksFrom afterCR (text ++ [byte]) = crlfBreaksFrom afterCR text ++ [byte] := by
  induction text generalizing afterCR with
  | nil => simp [crlfBreaksFrom, notLF, notCR]
  | cons head rest ih =>
      simp only [List.cons_append, crlfBreaksFrom, ih]
      split_ifs <;> rfl

/-! ### The number and what it announces -/

theorem mailstreamGetDataCrlfSize_eq (text : List UInt8) :
    mailstreamGetDataCrlfSize text = (crlfBreaks text).length := by
  rw [← pieces_length, pieces_plain]

theorem cString_terminated {s : List UInt8} (nulFree : NulFree s) (behind : List UInt8) :
    cString (s ++ 0 :: behind) = s := by
  have whole := cString_eq_self nulFree
  rw [cString] at whole ⊢
  rw [List.takeWhile_append_of_pos (fun byte member => by simpa using nulFree byte member)]
  simp

theorem literalCountSend_text (count : Nat) (plus : Bool) :
    (literalCountSend count plus).text = literalHead plus (count % 2 ^ 32) := by
  rw [literalCountSend, literalHead]
  simp only [Sending.text_append, mailimapNumberSend_text, mailimapCharSend_text, mailimapCrlfSend_text,
    apply_ite Sending.text, Sending.text_nil]
  simp

theorem decimal_inj {first second : Nat} {byte byte' : UInt8} {rest rest' : List UInt8}
    (notDigit : isDigit byte = false) (notDigit' : isDigit byte' = false)
    (same : decimal first ++ byte :: rest = decimal second ++ byte' :: rest') :
    first = second ∧ byte :: rest = byte' :: rest' := by
  have digits : ∀ (number : Nat) (byte : UInt8) (rest : List UInt8), isDigit byte = false →
      (decimal number ++ byte :: rest).takeWhile isDigit = decimal number := by
    intro number byte rest notDigit
    rw [List.takeWhile_append_of_pos (fun byte member => decimal_digits byte member)]
    simp [notDigit]
  have numbers : decimal first = decimal second := by
    rw [← digits first byte rest notDigit, ← digits second byte' rest' notDigit', same]
  constructor
  · rw [← decimalValue_decimal first, numbers, decimalValue_decimal]
  · rw [numbers] at same
    exact List.append_cancel_left same

theorem literalHead_inj {plus : Bool} {first second : Nat} {data data' : List UInt8}
    (same : literalHead plus first ++ data = literalHead plus second ++ data') : first = second ∧ data = data' := by
  have brace : isDigit (ascii '}') = false := by decide
  have sign : isDigit (ascii '+') = false := by decide
  cases plus with
  | false =>
      simp only [literalHead, Bool.false_eq_true, if_false, List.append_nil, List.cons_append, List.append_assoc,
        List.nil_append, List.cons.injEq, true_and] at same
      obtain ⟨numbers, tails⟩ := decimal_inj brace brace same
      exact ⟨numbers, by simpa using tails⟩
  | true =>
      simp only [literalHead, if_true, List.cons_append, List.append_assoc,
        List.nil_append, List.cons.injEq, true_and] at same
      obtain ⟨numbers, tails⟩ := decimal_inj sign sign same
      exact ⟨numbers, by simpa using tails⟩

/-- What a literal carries is right when the data is the whole normalised string and its
length was not cut to 32 bits. -/
theorem carriesAnnounced_iff {plus : Bool} {s data : List UInt8} :
    CarriesAnnounced plus s (some (literalCountSend (crlfBreaks s).length plus ++ mailimapSizedTokenSend data)) ↔
      (crlfBreaks s).length < 2 ^ 32 ∧ crlfBreaks data = crlfBreaks s := by
  have sent : Sending.text (literalCountSend (crlfBreaks s).length plus ++ mailimapSizedTokenSend data) =
      literalHead plus ((crlfBreaks s).length % 2 ^ 32) ++ crlfBreaks data := by
    rw [Sending.text_append, literalCountSend_text, mailimapSizedTokenSend_text]
  constructor
  · rintro ⟨sending, count, carried, isSent, text, length, whole⟩
    cases isSent
    rw [sent] at text
    obtain ⟨count_eq, data_eq⟩ := literalHead_inj text
    rw [whole] at data_eq length
    have bound := Nat.mod_lt (crlfBreaks s).length (Nat.two_pow_pos 32)
    exact ⟨by omega, data_eq⟩
  · rintro ⟨small, same⟩
    refine ⟨_, (crlfBreaks s).length, crlfBreaks data, rfl, ?_, by rw [same], same⟩
    rw [sent, Nat.mod_eq_of_lt small]

theorem mailimapLiteralSend_carries {s : List UInt8} (nulFree : NulFree s) (behind : List UInt8) :
    CarriesAnnounced false s (mailimapLiteralSend (s ++ 0 :: behind)) ↔ (crlfBreaks s).length < 2 ^ 32 := by
  have sent : mailimapLiteralSend (s ++ 0 :: behind) =
      some (literalCountSend (crlfBreaks s).length false ++ mailimapSizedTokenSend s) := by
    rw [mailimapLiteralSend, cString_terminated nulFree, mailimapLiteralDataSend, readOctets,
      if_pos (by rw [List.length_append]; exact Nat.le_add_right _ _), List.take_left, mailstreamGetDataCrlfSize_eq]
    rfl
  rw [sent, carriesAnnounced_iff]
  exact and_iff_left rfl

theorem mailimapLiteralplusSend_carries {s : List UInt8} (nulFree : NulFree s) :
    (∀ behind, CarriesAnnounced true s (mailimapLiteralplusSend (s ++ 0 :: behind))) ↔
      (crlfBreaks s).length < 2 ^ 32 ∧ CrlfOnly s := by
  have sent : ∀ behind, mailimapLiteralplusSend (s ++ 0 :: behind) =
      (readOctets (s ++ 0 :: behind) (crlfBreaks s).length).map fun data =>
        literalCountSend (crlfBreaks s).length true ++ mailimapSizedTokenSend data := by
    intro behind
    rw [mailimapLiteralplusSend, cString_terminated nulFree, mailimapLiteralDataSend, mailstreamGetDataCrlfSize_eq,
      Option.map_map]
    rfl
  constructor
  · intro carries
    -- nothing is allocated behind the terminator
    have here := carries []
    rw [sent, readOctets] at here
    by_cases inside : (crlfBreaks s).length ≤ (s ++ [0]).length
    · rw [if_pos inside, Option.map_some, carriesAnnounced_iff] at here
      refine ⟨here.1, crlfOnly_of_length ?_⟩
      rw [List.length_append, List.length_singleton] at inside
      by_contra longer
      have all : (s ++ [0]).take (crlfBreaks s).length = s ++ [0] :=
        List.take_of_length_le (by rw [List.length_append, List.length_singleton]; omega)
      have grown : crlfBreaks (s ++ [0]) = crlfBreaks s ++ [0] :=
        crlfBreaksFrom_concat (by decide) (by decide) false s
      have lengths := congrArg List.length here.2
      rw [all, grown, List.length_append, List.length_singleton] at lengths
      omega
    · rw [if_neg inside] at here
      obtain ⟨sending, count, data, isSent, -⟩ := here
      cases isSent
  · rintro ⟨small, only⟩ behind
    have length : (crlfBreaks s).length = s.length := by rw [only.crlfBreaks]
    rw [sent, readOctets, length, if_pos (by rw [List.length_append]; exact Nat.le_add_right _ _), List.take_left,
      Option.map_some, ← length, carriesAnnounced_iff]
    exact ⟨small, rfl⟩

/-- Both kinds of literals carry what they announce exactly for the strings whose breaks
are CRLF already and whose length fits in 32 bits. -/
theorem mailimapLiterals_carry {s : List UInt8} (nulFree : NulFree s) :
    (∀ behind, CarriesAnnounced false s (mailimapLiteralSend (s ++ 0 :: behind)) ∧
        CarriesAnnounced true s (mailimapLiteralplusSend (s ++ 0 :: behind))) ↔
      (crlfBreaks s).length < 2 ^ 32 ∧ CrlfOnly s := by
  constructor
  · intro carry
    exact (mailimapLiteralplusSend_carries nulFree).mp fun behind => (carry behind).2
  · intro condition behind
    exact ⟨(mailimapLiteralSend_carries nulFree behind).mpr condition.1,
      (mailimapLiteralplusSend_carries nulFree).mpr condition behind⟩

theorem mailimapLiterals_carry_line :
    (∀ behind, CarriesAnnounced false [ascii 'a', CR, LF] (mailimapLiteralSend ([ascii 'a', CR, LF] ++ 0 :: behind)) ∧
        CarriesAnnounced true [ascii 'a', CR, LF] (mailimapLiteralplusSend ([ascii 'a', CR, LF] ++ 0 :: behind))) ↔
      (crlfBreaks [ascii 'a', CR, LF]).length < 2 ^ 32 ∧ CrlfOnly [ascii 'a', CR, LF] :=
  mailimapLiterals_carry (by decide)

/-- For a single LF two octets are read where one is left: the terminator is sent. -/
theorem mailimapLiteralplusSend_sends_terminator :
    ¬ CarriesAnnounced true [LF] (mailimapLiteralplusSend ([LF] ++ 0 :: [])) := by
  rintro ⟨sending, count, data, sent, text, length, whole⟩
  have octets : (mailimapLiteralplusSend ([LF] ++ 0 :: [])).map Sending.text =
      some [ascii '{', ascii '2', ascii '+', ascii '}', CR, LF, CR, LF, 0] := by
    decide +kernel
  rw [sent, Option.map_some, Option.some.injEq] at octets
  have counted : data.length = 2 := by
    rw [whole]
    rfl
  have lengths := congrArg List.length (text.symm.trans octets)
  rw [← length, counted, whole] at lengths
  revert lengths
  decide +kernel

end Etpan.Imap
