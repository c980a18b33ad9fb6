import Etpan.Imf.StringWrite

namespace Etpan.Mime

open Etpan.Data Etpan.Imf

/-! Base64 bodies: the writer of `low-level/mime/mailmime_write_generic.c` and the
decoder of `low-level/mime/mailmime_content.c`. -/

def base64Encoding : List UInt8 :=
  "ABCDEFGHIJKLMNOPQRSTUVWXYZabcdefghijklmnopqrstuvwxyz0123456789+/".toList.map ascii

def base64MaxCol : Nat := 76

def base64Char (value : Nat) : UInt8 := base64Encoding.getD value 0

def ogroup (a b c : UInt8) (count : Nat) : List UInt8 :=
  [base64Char (a.toNat >>> 2),
    base64Char (((a.toNat &&& 3) <<< 4) ||| (b.toNat >>> 4)),
    if count = 1 then ascii '=' else base64Char (((b.toNat &&& 0xF) <<< 2) ||| (c.toNat >>> 6)),
    if count = 1 ∨ count = 2 then ascii '=' else base64Char (c.toNat &&& 0x3F)]

section Write

variable {σ : Type} (doWrite : DoWrite σ)

/-- A group, on a new line when the current one has no room for it. -/
def writeGroup (out : Output σ) (group : List UInt8) : Option (Output σ) :=
  (if out.col + 4 > base64MaxCol then mailimfStringWriteDriver doWrite out [CR, LF] else some out).bind
    fun out => mailimfStringWriteDriver doWrite out group

def mailmimeBase64WriteDriver : Output σ → List UInt8 → Option (Output σ)
  | out, [] => mailimfStringWriteDriver doWrite out [CR, LF]
  | out, [a] => (writeGroup doWrite out (ogroup a 0 0 1)).bind (mailmimeBase64WriteDriver · [])
  | out, [a, b] => (writeGroup doWrite out (ogroup a b 0 2)).bind (mailmimeBase64WriteDriver · [])
  | out, a :: b :: c :: rest =>
      (writeGroup doWrite out (ogroup a b c 3)).bind (mailmimeBase64WriteDriver · rest)

end Write

/-- `none` is the value -1 of padding and of the octets outside the alphabet. -/
def getBase64Value (ch : UInt8) : Option UInt8 :=
  if ascii 'A' ≤ ch ∧ ch ≤ ascii 'Z' then some (ch - ascii 'A')
  else if ascii 'a' ≤ ch ∧ ch ≤ ascii 'z' then some (ch - ascii 'a' + 26)
  else if ascii '0' ≤ ch ∧ ch ≤ ascii '9' then some (ch - ascii '0' + 52)
  else if ch = ascii '+' then some 62
  else if ch = ascii '/' then some 63
  else none

/-- The decoder between two octets; `chunk` holds the values of the open group, and
its missing ones are 0. -/
structure Base64State where
  curToken : Nat
  lastFullTokenEnd : Nat
  chunk : List UInt8
  written : List UInt8
deriving Repr, DecidableEq

def chunkOut0 (chunk : List UInt8) : UInt8 :=
  UInt8.ofNat (((chunk.getD 0 0).toNat <<< 2) ||| ((chunk.getD 1 0).toNat >>> 4))

def chunkOut1 (chunk : List UInt8) : UInt8 :=
  UInt8.ofNat (((chunk.getD 1 0).toNat <<< 4) ||| ((chunk.getD 2 0).toNat >>> 2))

def chunkOut2 (chunk : List UInt8) : UInt8 :=
  UInt8.ofNat (((chunk.getD 2 0).toNat <<< 6) ||| (chunk.getD 3 0).toNat)

def base64Step (st : Base64State) (ch : UInt8) : Base64State :=
  match getBase64Value ch with
  | none => { st with curToken := st.curToken + 1 }
  | some value =>
      let chunk := st.chunk ++ [value]
      if chunk.length = 4 then
        { curToken := st.curToken + 1
          lastFullTokenEnd := st.curToken + 1
          chunk := []
          written := st.written ++ [chunkOut0 chunk, chunkOut1 chunk, chunkOut2 chunk] }
      else { st with curToken := st.curToken + 1, chunk }

def base64Rest (chunk : List UInt8) : List UInt8 :=
  if chunk = [] then []
  else if 3 ≤ chunk.length then [chunkOut0 chunk, chunkOut1 chunk]
  else [chunkOut0 chunk]

/-- The index after the call and the decoded octets. -/
def mailmimeBase64BodyParseImpl (message : List UInt8) (indx : Nat) (isPartial : Bool) :
    Except MailimfError (Nat × List UInt8) :=
  if message.length < indx then .error .inval
  else
    let st := (message.drop indx).foldl base64Step ⟨indx, indx, [], []⟩
    if isPartial then .ok (st.lastFullTokenEnd, st.written)
    else .ok (st.curToken, st.written ++ base64Rest st.chunk)

def mailmimeBase64BodyParse (message : List UInt8) (indx : Nat) : Except MailimfError (Nat × List UInt8) :=
  mailmimeBase64BodyParseImpl message indx false

theorem getBase64Value_char :
    ∀ value < 64, getBase64Value (base64Char value) = some (UInt8.ofNat value) := by
  decide +kernel

theorem base64Char_mem : ∀ value < 64, base64Char value ∈ base64Encoding := by
  decide

theorem base64Encoding_breakFree : BreakFree (ascii '=' :: base64Encoding) := by
  decide

theorem sextets (a b c : UInt8) :
    a.toNat >>> 2 = a.toNat / 4 ∧
      ((a.toNat &&& 3) <<< 4) ||| (b.toNat >>> 4) = a.toNat % 4 * 16 + b.toNat / 16 ∧
      ((b.toNat &&& 0xF) <<< 2) ||| (c.toNat >>> 6) = b.toNat % 16 * 4 + c.toNat / 64 ∧
      c.toNat &&& 0x3F = c.toNat % 64 := by
  have bBound := b.toNat_lt
  have cBound := c.toNat_lt
  refine ⟨Nat.shiftRight_eq_div_pow _ 2, ?_, ?_, Nat.and_two_pow_sub_one_eq_mod _ 6⟩
  · rw [Nat.and_two_pow_sub_one_eq_mod _ 2, Nat.shiftRight_eq_div_pow, shiftLeft_or _ (by omega)]
    norm_num
  · rw [Nat.and_two_pow_sub_one_eq_mod _ 4, Nat.shiftRight_eq_div_pow, shiftLeft_or _ (by omega)]
    norm_num

def Base64Line (line : List UInt8) : Prop :=
  ∀ byte ∈ line, byte ∈ base64Encoding ∨ byte = ascii '='

theorem Base64Line.breakFree {line : List UInt8} (isLine : Base64Line line) : BreakFree line := by
  intro byte member
  apply base64Encoding_breakFree
  rcases isLine byte member with letter | padding
  · exact List.mem_cons_of_mem _ letter
  · simp [padding]

theorem ogroup_line (a b c : UInt8) (count : Nat) : Base64Line (ogroup a b c count) := by
  have aBound := a.toNat_lt
  have bBound := b.toNat_lt
  have cBound := c.toNat_lt
  obtain ⟨first, second, third, fourth⟩ := sextets a b c
  intro byte member
  simp only [ogroup, first, second, third, fourth, List.mem_cons, List.not_mem_nil, or_false] at member
  rcases member with rfl | rfl | rfl | rfl
  · exact .inl (base64Char_mem _ (by omega))
  · exact .inl (base64Char_mem _ (by omega))
  · split
    · exact .inr rfl
    · exact .inl (base64Char_mem _ (by omega))
  · split
    · exact .inr rfl
    · exact .inl (base64Char_mem _ (by omega))

theorem ogroup_length (a b c : UInt8) (count : Nat) : (ogroup a b c count).length = 4 := rfl

theorem base64Step_skip {ch : UInt8} (skipped : getBase64Value ch = none) (st : Base64State) :
    base64Step st ch = { st with curToken := st.curToken + 1 } := by
  simp [base64Step, skipped]

theorem base64Step_crlf (st : Base64State) :
    [CR, LF].foldl base64Step st = { st with curToken := st.curToken + 2 } := by
  rw [List.foldl_cons, List.foldl_cons, base64Step_skip (by decide), base64Step_skip (by decide)]
  rfl

theorem base64Step_char {value : Nat} (small : value < 64) (st : Base64State)
    (room : st.chunk.length ≠ 3) :
    base64Step st (base64Char value) =
      { st with curToken := st.curToken + 1, chunk := st.chunk ++ [UInt8.ofNat value] } := by
  simp [base64Step, getBase64Value_char value small, room]

theorem ofNat_eq {number : Nat} {byte : UInt8} (same : number % 256 = byte.toNat) :
    UInt8.ofNat number = byte := by
  apply UInt8.toNat_inj.mp
  rw [UInt8.toNat_ofNat', ← same]

theorem chunkOut0_group (a b : UInt8) (later : List UInt8) :
    chunkOut0 (UInt8.ofNat (a.toNat / 4) :: UInt8.ofNat (a.toNat % 4 * 16 + b.toNat / 16) :: later) = a := by
  have aBound := a.toNat_lt
  have bBound := b.toNat_lt
  simp only [chunkOut0, List.getD_cons_zero, List.getD_cons_succ, UInt8.toNat_ofNat',
    Nat.shiftRight_eq_div_pow]
  rw [shiftLeft_or _ (by omega)]
  apply ofNat_eq
  omega

theorem chunkOut1_group (a b c first : UInt8) (later : List UInt8) :
    chunkOut1 (first :: UInt8.ofNat (a.toNat % 4 * 16 + b.toNat / 16) ::
      UInt8.ofNat (b.toNat % 16 * 4 + c.toNat / 64) :: later) = b := by
  have bBound := b.toNat_lt
  have cBound := c.toNat_lt
  simp only [chunkOut1, List.getD_cons_zero, List.getD_cons_succ, UInt8.toNat_ofNat',
    Nat.shiftRight_eq_div_pow]
  rw [shiftLeft_or _ (by omega)]
  apply ofNat_eq
  omega

theorem chunkOut2_group (b c first second : UInt8) (later : List UInt8) :
    chunkOut2 (first :: second :: UInt8.ofNat (b.toNat % 16 * 4 + c.toNat / 64) ::
      UInt8.ofNat (c.toNat % 64) :: later) = c := by
  have cBound := c.toNat_lt
  simp only [chunkOut2, List.getD_cons_zero, List.getD_cons_succ, UInt8.toNat_ofNat']
  rw [shiftLeft_or _ (by omega)]
  apply ofNat_eq
  omega

theorem scan_chars {st : Base64State} (closed : st.chunk = []) {values : List Nat}
    (small : ∀ value ∈ values, value < 64) (few : values.length < 4) :
    (values.map base64Char).foldl base64Step st =
      { st with curToken := st.curToken + values.length, chunk := values.map UInt8.ofNat } := by
  induction values using List.reverseRecOn with
  | nil =>
      cases st
      cases closed
      rfl
  | append_singleton values value ih =>
      rw [List.length_append, List.length_singleton] at few
      have earlier := ih (fun other member => small other (by simp [member])) (by omega)
      rw [List.map_append, List.foldl_append, earlier, List.map_singleton, List.foldl_cons, List.foldl_nil,
        base64Step_char (small value (by simp)) _ (by simp; omega)]
      simp [Nat.add_assoc]

theorem scan_group {st : Base64State} (closed : st.chunk = []) (a b c : UInt8) :
    (ogroup a b c 3).foldl base64Step st =
      { curToken := st.curToken + 4
        lastFullTokenEnd := st.curToken + 4
        chunk := []
        written := st.written ++ [a, b, c] } := by
  have aBound := a.toNat_lt
  have bBound := b.toNat_lt
  have cBound := c.toNat_lt
  obtain ⟨first, second, third, fourth⟩ := sextets a b c
  have chars : ogroup a b c 3 = [a.toNat / 4, a.toNat % 4 * 16 + b.toNat / 16,
      b.toNat % 16 * 4 + c.toNat / 64].map base64Char ++ [base64Char (c.toNat % 64)] := by
    simp [ogroup, first, second, third, fourth]
  have last := getBase64Value_char (c.toNat % 64) (by omega)
  rw [chars, List.foldl_append, scan_chars closed (by simp; omega) (by simp)]
  simp only [List.foldl_cons, List.foldl_nil, base64Step, last, List.map_cons, List.map_nil,
    List.cons_append, List.nil_append, chunkOut0_group, chunkOut1_group, chunkOut2_group]
  rfl

theorem scan_one {st : Base64State} (closed : st.chunk = []) (a : UInt8) :
    let after := (ogroup a 0 0 1).foldl base64Step st
    after.curToken = st.curToken + 4 ∧ after.written ++ base64Rest after.chunk = st.written ++ [a] := by
  have aBound := a.toNat_lt
  obtain ⟨first, second, -, -⟩ := sextets a 0 0
  have padding : getBase64Value (ascii '=') = none := by decide
  have chars : ogroup a 0 0 1 = [a.toNat / 4, a.toNat % 4 * 16 + (0 : UInt8).toNat / 16].map base64Char ++
      [ascii '=', ascii '='] := by
    simp only [ogroup, first, second]
    rfl
  rw [chars, List.foldl_append, scan_chars closed (by simp; omega) (by simp), List.foldl_cons,
    List.foldl_cons, base64Step_skip padding, base64Step_skip padding]
  refine ⟨rfl, ?_⟩
  have rest := chunkOut0_group a 0 []
  simp only [List.foldl_nil, List.map_cons, List.map_nil, base64Rest, rest]
  rfl

theorem scan_two {st : Base64State} (closed : st.chunk = []) (a b : UInt8) :
    let after := (ogroup a b 0 2).foldl base64Step st
    after.curToken = st.curToken + 4 ∧ after.written ++ base64Rest after.chunk = st.written ++ [a, b] := by
  have aBound := a.toNat_lt
  have bBound := b.toNat_lt
  obtain ⟨first, second, third, -⟩ := sextets a b 0
  have padding : getBase64Value (ascii '=') = none := by decide
  have chars : ogroup a b 0 2 = [a.toNat / 4, a.toNat % 4 * 16 + b.toNat / 16,
      b.toNat % 16 * 4 + (0 : UInt8).toNat / 64].map base64Char ++ [ascii '='] := by
    simp only [ogroup, first, second, third]
    rfl
  rw [chars, List.foldl_append, scan_chars closed (by simp; omega) (by simp), List.foldl_cons,
    base64Step_skip padding]
  refine ⟨rfl, ?_⟩
  simp only [List.foldl_nil, List.map_cons, List.map_nil, base64Rest, chunkOut0_group, chunkOut1_group]
  rfl

theorem writeGroup_memory (out : Output (List UInt8)) {group : List UInt8} (isLine : Base64Line group)
    (four : group.length = 4) :
    writeGroup memory out group =
      if out.col + 4 > base64MaxCol then some { data := out.data ++ [CR, LF] ++ group, col := 4 }
      else some { data := out.data ++ group, col := out.col + 4 } := by
  have short : group.length ≤ maxImfLine := by
    rw [four]
    decide
  have empty : BreakFree [] := by simp [BreakFree]
  have crlf := mailimfStringWriteDriver_crlf empty (by decide) out
  have written := fun out => mailimfStringWriteDriver_breakFree isLine.breakFree short out
  unfold writeGroup
  split
  · simp only [List.nil_append, List.append_nil] at crlf
    rw [crlf, Option.bind_some, written, four]
  · rw [Option.bind_some, written, four]

/-- What the writer emits from a column on: lines of base64 text that fit, from
which the decoder reads the text back. -/
def Base64Text (col : Nat) (text : List UInt8) (lines : List (List UInt8)) : Prop :=
  ∃ head tail, lines = head :: tail ∧ (head = [] ∨ col + head.length ≤ base64MaxCol) ∧
    (∀ line ∈ tail, line.length ≤ base64MaxCol) ∧ (∀ line ∈ lines, Base64Line line) ∧
    ∀ st : Base64State, st.chunk = [] →
      let after := (joinLines lines).foldl base64Step st
      after.curToken = st.curToken + (joinLines lines).length ∧
        after.written ++ base64Rest after.chunk = st.written ++ text

theorem Base64Text.nil (col : Nat) : Base64Text col [] [[]] := by
  refine ⟨[], [], rfl, .inl rfl, by simp, by simp [Base64Line], fun st closed => ?_⟩
  rw [joinLines_cons, joinLines_nil, List.nil_append, base64Step_crlf]
  simp [closed, base64Rest]

theorem Base64Text.last {col : Nat} {group bytes : List UInt8} (room : col + 4 ≤ base64MaxCol)
    (isLine : Base64Line group) (four : group.length = 4)
    (reads : ∀ st : Base64State, st.chunk = [] →
      let after := group.foldl base64Step st
      after.curToken = st.curToken + 4 ∧ after.written ++ base64Rest after.chunk = st.written ++ bytes) :
    Base64Text col bytes [group] := by
  refine ⟨group, [], rfl, .inr (by rw [four]; exact room), by simp, by simpa using isLine, fun st closed => ?_⟩
  obtain ⟨position, decoded⟩ := reads st closed
  have spelled : joinLines [group] = group ++ [CR, LF] := by simp
  rw [spelled, List.foldl_append, base64Step_crlf, List.length_append, four, ← Nat.add_assoc]
  exact ⟨by rw [position]; rfl, decoded⟩

theorem Base64Text.cons {col : Nat} {text : List UInt8} {lines : List (List UInt8)}
    (room : col + 4 ≤ base64MaxCol) (rest : Base64Text (col + 4) text lines) (a b c : UInt8) :
    ∃ lines', joinLines lines' = ogroup a b c 3 ++ joinLines lines ∧
      Base64Text col (a :: b :: c :: text) lines' := by
  obtain ⟨head, tail, rfl, fits, tailFits, isText, reads⟩ := rest
  have spelled : joinLines ((ogroup a b c 3 ++ head) :: tail) = ogroup a b c 3 ++ joinLines (head :: tail) := by
    simp
  refine ⟨(ogroup a b c 3 ++ head) :: tail, spelled, ogroup a b c 3 ++ head, tail, rfl, .inr ?_,
    tailFits, ?_, fun st closed => ?_⟩
  · rw [List.length_append, ogroup_length]
    rcases fits with rfl | fits
    · simpa using room
    · omega
  · intro line member
    rcases List.mem_cons.mp member with rfl | later
    · intro byte inner
      rcases List.mem_append.mp inner with early | late
      · exact ogroup_line a b c 3 byte early
      · exact isText head (by simp) byte late
    · exact isText line (by simp [later])
  · rw [spelled, List.foldl_append, scan_group closed, List.length_append, ogroup_length, ← Nat.add_assoc]
    obtain ⟨position, decoded⟩ := reads ⟨st.curToken + 4, st.curToken + 4, [], st.written ++ [a, b, c]⟩ rfl
    exact ⟨position, by rw [decoded]; simp⟩

theorem Base64Text.fresh {text : List UInt8} {lines : List (List UInt8)} (text' : Base64Text 0 text lines)
    (col : Nat) : Base64Text col text ([] :: lines) := by
  obtain ⟨head, tail, rfl, fits, tailFits, isText, reads⟩ := text'
  refine ⟨[], head :: tail, rfl, .inl rfl, ?_, ?_, fun st closed => ?_⟩
  · intro line member
    rcases List.mem_cons.mp member with rfl | later
    · rcases fits with rfl | fits
      · simp
      · omega
    · exact tailFits line later
  · intro line member
    rcases List.mem_cons.mp member with rfl | later
    · simp [Base64Line]
    · exact isText line later
  · have spelled : joinLines ([] :: head :: tail) = [CR, LF] ++ joinLines (head :: tail) := by simp
    rw [spelled, List.foldl_append, base64Step_crlf, List.length_append, ← Nat.add_assoc]
    exact reads _ closed

theorem writeGroup_text {group text : List UInt8} (follows : Nat → List (List UInt8) → Prop)
    (isLine : Base64Line group) (four : group.length = 4)
    {next : Output (List UInt8) → Option (Output (List UInt8))}
    (continued : ∀ out, ∃ lines, next out = some ⟨out.data ++ joinLines lines, 0⟩ ∧ follows out.col lines)
    (joined : ∀ col lines, col + 4 ≤ base64MaxCol → follows (col + 4) lines →
      ∃ lines', joinLines lines' = group ++ joinLines lines ∧ Base64Text col text lines')
    (out : Output (List UInt8)) :
    ∃ lines, (writeGroup memory out group).bind next = some ⟨out.data ++ joinLines lines, 0⟩ ∧
      Base64Text out.col text lines := by
  rw [writeGroup_memory out isLine four]
  by_cases full : out.col + 4 > base64MaxCol
  · rw [if_pos full, Option.bind_some]
    obtain ⟨lines, written, after⟩ := continued ⟨out.data ++ [CR, LF] ++ group, 4⟩
    obtain ⟨lines', spelled, isText⟩ := joined 0 lines (by decide) after
    refine ⟨[] :: lines', ?_, isText.fresh out.col⟩
    rw [written, joinLines_cons, spelled]
    simp
  · rw [if_neg full, Option.bind_some]
    obtain ⟨lines, written, after⟩ := continued ⟨out.data ++ group, out.col + 4⟩
    obtain ⟨lines', spelled, isText⟩ := joined out.col lines (by omega) after
    exact ⟨lines', by rw [written, spelled]; simp, isText⟩

theorem mailmimeBase64WriteDriver_nil (out : Output (List UInt8)) :
    mailmimeBase64WriteDriver memory out [] = some ⟨out.data ++ joinLines [[]], 0⟩ := by
  have empty : BreakFree [] := by simp [BreakFree]
  have crlf := mailimfStringWriteDriver_crlf empty (by decide) out
  simpa [mailmimeBase64WriteDriver] using crlf

theorem mailmimeBase64WriteDriver_text : ∀ (text : List UInt8) (out : Output (List UInt8)),
    ∃ lines, mailmimeBase64WriteDriver memory out text = some ⟨out.data ++ joinLines lines, 0⟩ ∧
      Base64Text out.col text lines
  | [], out => ⟨[[]], mailmimeBase64WriteDriver_nil out, Base64Text.nil out.col⟩
  | [a], out => by
      rw [mailmimeBase64WriteDriver]
      refine writeGroup_text (fun _ lines => lines = [[]]) (ogroup_line a 0 0 1) rfl
        (fun out => ⟨[[]], mailmimeBase64WriteDriver_nil out, rfl⟩) ?_ out
      rintro col lines room rfl
      exact ⟨[ogroup a 0 0 1], by simp, .last room (ogroup_line a 0 0 1) rfl fun st closed => scan_one closed a⟩
  | [a, b], out => by
      rw [mailmimeBase64WriteDriver]
      refine writeGroup_text (fun _ lines => lines = [[]]) (ogroup_line a b 0 2) rfl
        (fun out => ⟨[[]], mailmimeBase64WriteDriver_nil out, rfl⟩) ?_ out
      rintro col lines room rfl
      exact ⟨[ogroup a b 0 2], by simp,
        .last room (ogroup_line a b 0 2) rfl fun st closed => scan_two closed a b⟩
  | a :: b :: c :: rest, out => by
      rw [mailmimeBase64WriteDriver]
      exact writeGroup_text (Base64Text · rest) (ogroup_line a b c 3) rfl
        (fun out => mailmimeBase64WriteDriver_text rest out)
        (fun col lines room after => after.cons room a b c) out

/-- From any column, the writer emits lines of base64 text of at most 76 characters,
and the decoder reads the text back and stops at their end. -/
theorem mailmimeBase64WriteDriver_parse (col : Nat) (text written : List UInt8) :
    ∃ lines, mailmimeBase64WriteDriver memory ⟨written, col⟩ text = some ⟨written ++ joinLines lines, 0⟩ ∧
      (∀ line ∈ lines, line.length ≤ 76 ∧ ∀ byte ∈ line, byte ∈ base64Encoding ∨ byte = ascii '=') ∧
      mailmimeBase64BodyParse (joinLines lines) 0 = .ok ((joinLines lines).length, text) := by
  obtain ⟨lines, emitted, head, tail, rfl, fits, tailFits, isText, reads⟩ :=
    mailmimeBase64WriteDriver_text text ⟨written, col⟩
  refine ⟨head :: tail, emitted, fun line member => ⟨?_, isText line member⟩, ?_⟩
  · rcases List.mem_cons.mp member with rfl | later
    · rcases fits with rfl | fits
      · simp
      · exact (Nat.le_add_left _ _).trans fits
    · exact tailFits line later
  · obtain ⟨position, decoded⟩ := reads ⟨0, 0, [], []⟩ rfl
    rw [mailmimeBase64BodyParse, mailmimeBase64BodyParseImpl, if_neg (Nat.not_lt_zero _), List.drop_zero]
    simp only [Bool.false_eq_true, if_false]
    rw [position, decoded]
    simp

end Etpan.Mime
