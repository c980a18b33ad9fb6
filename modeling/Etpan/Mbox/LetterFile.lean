import Etpan.Mbox.Append

namespace Etpan.Mbox

open Etpan.Data

/-! Letters in a file, one behind the other, and what a parser finds of them. -/

theorem MailState.run_append (state : MailState) (text more : List UInt8) :
    state.run (text ++ more) = (state.run text).bind fun later => later.run more := by
  induction text generalizing state with
  | nil => rfl
  | cons byte text ih =>
      rw [List.cons_append, MailState.run, MailState.run]
      cases state.next byte with
      | none => rfl
      | some later => exact ih later

theorem Scanning.start (body length next : Nat) : Scanning body body ⟨.firstLF, length, next⟩ :=
  ⟨nofun, le_rfl, fun parsing => absurd rfl parsing⟩

theorem Scanned.run {body pos : Nat} {scan : MailScan} {tail : List UInt8} (scanned : Scanned body pos scan tail) {text : List UInt8}
    {state : MailState} (run : scan.state.run text = some state) :
    ∃ later kept, later.state = state ∧ Scanned body (pos + text.length) later kept ∧
      ∀ more, scanMail body pos scan (text ++ more) = scanMail body (pos + text.length) later more := by
  induction text generalizing pos scan tail with
  | nil => exact ⟨scan, tail, Option.some.inj run, scanned, fun more => rfl⟩
  | cons byte text ih =>
      rw [MailState.run] at run
      rcases scanned.step_cases byte with ⟨later, step, after, -⟩ | ⟨-, state_eq, rfl⟩
      · rw [after.next_state, Option.bind_some] at run
        obtain ⟨dropped, kept, -, -, behind⟩ := after.scanned
        obtain ⟨final, rest, final_state, final_scanned, final_run⟩ := ih behind run
        have position : pos + 1 + text.length = pos + (byte :: text).length := by
          rw [List.length_cons]
          omega
        rw [position] at final_scanned final_run
        refine ⟨final, rest, final_state, final_scanned, fun more => ?_⟩
        rw [List.cons_append, scanMail, step]
        exact final_run more
      · rw [state_eq, MailState.next, if_pos rfl] at run
        cases run

theorem Scanning.separator {body pos : Nat} {scan : MailScan} (scanning : Scanning body pos scan) {text : List UInt8}
    (separator : scan.state.run text = none) (more : List UInt8) : (scanMail body pos scan (text ++ more)).2 < pos + text.length := by
  induction text generalizing pos scan with
  | nil => cases separator
  | cons byte text ih =>
      rw [MailState.run] at separator
      rcases scanning.step byte with ⟨later, step, next, behind⟩ | ⟨step, -, next_eq⟩
      · rw [next, Option.bind_some] at separator
        have before := ih behind separator
        rw [List.cons_append, scanMail, step, List.length_cons]
        dsimp only
        omega
      · rw [List.cons_append, scanMail, step, List.length_cons]
        dsimp only
        omega

theorem scanMail_first (body length next : Nat) (byte : UInt8) (rest : List UInt8) :
    ∃ scan, MailState.next .firstLF byte = some scan.state ∧ Scanned body (body + 1) scan [byte] ∧
      scanMail body body ⟨.firstLF, length, next⟩ (byte :: rest) = scanMail body (body + 1) scan rest := by
  have started : ∀ state : MailState, state.Describes [byte] → state.matched = [] →
      Scanned body (body + 1) ⟨state, body, next⟩ [byte] :=
    fun state describes unmatched =>
      ⟨Nat.lt_succ_self body, le_rfl, rfl, describes, fun matched => absurd unmatched matched⟩
  rw [scanMail, MailScan.step, MailState.next]
  dsimp only
  split_ifs with cr lf
  · exact ⟨⟨.secondCR, body, next⟩, rfl, started .secondCR ⟨[byte], by simp, by simp [cr], rfl⟩ rfl, rfl⟩
  · exact ⟨⟨.secondLF, body, next⟩, rfl, started .secondLF ⟨[byte], by simp, by simp [lf], rfl⟩ rfl, rfl⟩
  · exact ⟨⟨.inMail, body, next⟩, rfl, started .inMail (by simp [MailState.Describes, cr, lf]) rfl, rfl⟩

theorem next_lf {state later : MailState} (next : state.next LF = some later) :
    later = .firstLF ∨ later = .secondLF ∨ later = .inMail := by
  cases state with
  | inMail | firstCR | firstLF | secondCR | secondLF =>
      simp only [MailState.next, LF_ne_CR, if_false, if_true, Option.some.injEq] at next
      simp [← next]
  | parsingF | parsingR | parsingO =>
      simp only [MailState.next, Option.some.injEq] at next
      rw [if_neg (by decide)] at next
      simp [← next]
  | parsingM =>
      rw [MailState.next, if_neg (by decide), Option.some.injEq] at next
      simp [← next]

def Lined (text : List UInt8) : Prop := text = [] ∨ ∃ start, text = start ++ [LF]

theorem Lined.run {text : List UInt8} (lined : Lined text) {state : MailState} (run : MailState.run .firstLF text = some state) :
    state = .firstLF ∨ state = .secondLF ∨ state = .inMail ∧ text ≠ [] := by
  rcases lined with rfl | ⟨start, rfl⟩
  · exact .inl (Option.some.inj run).symm
  · rw [MailState.run_append] at run
    obtain ⟨before, -, last⟩ := Option.bind_eq_some_iff.mp run
    rw [MailState.run] at last
    obtain ⟨later, next, same⟩ := Option.bind_eq_some_iff.mp last
    obtain rfl := Option.some.inj same
    rcases next_lf next with first | second | inMail
    · exact .inl first
    · exact .inr (.inl second)
    · exact .inr (.inr ⟨inMail, by simp⟩)

theorem scanMail_lined (body length next : Nat) {text more : List UInt8} (follows : Follows more)
    (run : MailState.run .firstLF text = some .firstLF ∨ MailState.run .firstLF text = some .secondLF) :
    scanMail body body ⟨.firstLF, length, next⟩ (text ++ LF :: more) = (body + text.length, body + text.length + 1) := by
  have scanning := Scanning.start body length next
  have stepped : ∀ scan : MailScan, scan.state = .firstLF ∨ scan.state = .secondLF → ∀ pos,
      scanMail body pos scan (LF :: more) = (pos, pos + 1) := by
    intro scan state pos
    have second : (⟨.secondLF, pos, scan.next⟩ : MailScan).state.Second := .inr rfl
    have step : scan.step body pos LF = .inl ⟨.secondLF, pos, scan.next⟩ := by
      obtain ⟨was, fin, started⟩ := scan
      rcases state with rfl | rfl
      · rfl
      · rfl
    rw [scanMail, step]
    exact scanMail_follows second follows
  rcases run with run | run
  · obtain ⟨later, state, -, scanned⟩ := scanning.run run
    rw [scanned, stepped later (.inl state)]
  · obtain ⟨later, state, -, scanned⟩ := scanning.run run
    rw [scanned, stepped later (.inr state)]

/-- Otherwise the content is another one: a separator cuts it, or it goes on behind the text, or its last line is lost. -/
theorem scanMail_misses (body length next : Nat) {text more : List UInt8} (lined : Lined text) (follows : Follows more)
    (unsafe_ : ¬ (MailState.run .firstLF text = some .firstLF ∨ MailState.run .firstLF text = some .secondLF)) :
    (scanMail body body ⟨.firstLF, length, next⟩ (text ++ LF :: more)).1 ≠ body + text.length := by
  cases run : MailState.run .firstLF text with
  | none =>
      have early := (Scanning.start body length next).separator run (LF :: more)
      obtain ⟨content, padding, behind, -, ends, -⟩ :=
        (scanMail_endsAt body length next (text ++ LF :: more) (fun nothing => by simp at nothing)).cut
      rw [ends] at early ⊢
      dsimp only at early ⊢
      omega
  | some state =>
      rw [run] at unsafe_
      rcases lined.run run with rfl | rfl | ⟨rfl, nonempty⟩
      · exact absurd (.inl rfl) unsafe_
      · exact absurd (.inr rfl) unsafe_
      cases text with
      | nil => contradiction
      | cons byte rest =>
          obtain ⟨scan, first, scanned, start⟩ := scanMail_first body length next byte (rest ++ LF :: more)
          rw [MailState.run, first, Option.bind_some] at run
          obtain ⟨later, kept, state, behind, goes⟩ := scanned.run run
          have describes := behind.describes
          rw [state] at describes
          have tail_length := behind.tail_length
          have kept_pos : 0 < kept.length := List.length_pos_iff.mpr fun nothing => describes (nothing ▸ Breaks.nil)
          have step : later.step body (body + 1 + rest.length) LF = .inl { later with state := .firstLF } := by
            simp [MailScan.step, state]
          rw [List.cons_append, start, goes, scanMail, step, List.length_cons]
          rcases follows with rfl | ⟨others, rfl⟩
          · -- The line feed is the end of the file, and the end before the line stays.
            simp only [scanMail, reduceCtorEq, if_false]
            omega
          · have letter : ascii 'F' ≠ CR ∧ ascii 'F' ≠ LF := by decide
            have reached : Scanned body (body + 1 + rest.length + 1 + 1)
                ⟨.inMail, body + 1 + rest.length + 1, later.next⟩ [ascii 'F'] :=
              ⟨by omega, (by omega : body ≤ body + 1 + rest.length + 1), rfl, by simp [MailState.Describes, letter],
                fun parsing => absurd rfl parsing⟩
            obtain ⟨content, padding, _, -, ends, -⟩ :=
              (@Scanned.endsAt _ _ _ _ ([ascii 'r', ascii 'o', ascii 'm', SP] ++ others) reached (by simp)).cut
            have second : ({ later with state := .firstLF } : MailScan).step body (body + 1 + rest.length + 1) (ascii 'F') =
                .inl ⟨.inMail, body + 1 + rest.length + 1, later.next⟩ := by
              simp [MailScan.step, letter]
            change (scanMail body _ _ (ascii 'F' :: ([ascii 'r', ascii 'o', ascii 'm', SP] ++ others))).1 ≠ _
            rw [scanMail, second]
            dsimp only
            rw [ends]
            dsimp only
            omega

theorem FromLine.isFromLine (line : FromLine) : IsFromLine line.text := by
  refine ⟨[ascii '-', SP] ++ line.date, ?_, ?_⟩
  · intro member
    rcases List.mem_append.mp member with early | date
    · revert early
      decide
    · exact line.noBreak date
  · rw [FromLine.text]

theorem FromLine.text_ne (line : FromLine) : line.text ≠ [] := by
  simp [FromLine.text, fromPrefix]

/-- A letter in a file: the separator line and the UID header that are written with it. -/
structure Entry where
  line : FromLine
  uid : Option UInt32
  letter : Letter

namespace Entry

def uidFields (entry : Entry) : List (List UInt8) := entry.uid.elim [] fun uid => [uidLine (decimal uid.toNat)]

def fields (entry : Entry) : List (List UInt8) := entry.letter.kept ++ entry.uidFields

def data (entry : Entry) : List UInt8 := entry.fields.flatten ++ (entry.letter.blank ++ entry.letter.quoted)

def text (entry : Entry) : List UInt8 :=
  entry.line.text ++ (entry.fields.flatten ++ (entry.letter.blank ++ (entry.letter.quoted ++ [LF])))

variable (entry : Entry)

theorem fieldsThen (more : List UInt8) : FieldsThen entry.fields (entry.letter.blank ++ more) := by
  have kept := entry.letter.kept_fieldsThen more
  cases number : entry.uid with
  | none => simpa [fields, uidFields, number] using kept
  | some uid =>
      have behind : FieldsThen entry.letter.kept (uidLine (decimal uid.toNat) ++ (entry.letter.blank ++ more)) :=
        kept.replace (startsBlank_uidLine _ _)
      simpa only [fields, uidFields, number, Option.elim_some] using
        behind.snoc (isField_uidLine (digits_noBreak uid)) (entry.letter.startsBlank_blank more)

theorem foldUid_fields (more : List UInt8) : foldUid 0 entry.fields more = entry.uid.getD 0 := by
  have kept : ∀ (fields : List (List UInt8)) (tail : List UInt8), (∀ field ∈ fields, isUidHeader field = false) →
      ∀ uid, foldUid uid fields tail = uid := by
    intro fields tail none
    induction fields with
    | nil => exact fun _ => rfl
    | cons field fields ih =>
        intro uid
        rw [foldUid, none field List.mem_cons_self, if_neg Bool.false_ne_true]
        exact ih (fun other member => none other (List.mem_cons_of_mem field member)) uid
  have isKept : ∀ field ∈ entry.letter.kept, isUidHeader field = false := by
    intro field member
    simpa using (List.mem_filter.mp member).2
  cases number : entry.uid with
  | none => simpa [fields, uidFields, number] using kept _ more isKept 0
  | some uid =>
      have header := isUidHeader_uidLine (decimal uid.toNat) []
      rw [List.append_nil] at header
      simp only [fields, uidFields, number, Option.elim_some, Option.getD_some]
      rw [foldUid_snoc 0 _ _ more header, fieldUid_uidLine]

theorem parts (more : List UInt8) : Parts entry.line.text entry.fields (entry.letter.blank ++ more) :=
  ⟨.inl entry.line.isFromLine, entry.fieldsThen more⟩

theorem singleParse_text (more : List UInt8) :
    singleParse (entry.text ++ more) = .ofTail entry.line.text.length entry.fields.flatten.length
      (tailParse (entry.letter.blank ++ (entry.letter.quoted ++ LF :: more))) (entry.uid.getD 0) := by
  have split : entry.text ++ more =
      entry.line.text ++ (entry.fields.flatten ++ (entry.letter.blank ++ (entry.letter.quoted ++ LF :: more))) := by
    simp [text]
  rw [split, (entry.parts _).singleParse (entry.letter.fieldsEnd _), entry.foldUid_fields]

end Entry

namespace Letter

variable (letter : Letter)

theorem lined_quoted : Lined letter.quoted := by
  rcases letter.ends with body | ⟨text, body⟩
  · exact .inl (by rw [quoted, body]; rfl)
  · obtain ⟨start, ends⟩ := @quoteLines_ends text true
    exact .inr ⟨start, by rw [quoted, body, ends]⟩

theorem quoteLines_quotedBody : quoteLines true letter.quoted = letter.quoted := quoteLines_quoted true letter.body

theorem tailParse_letter (more : List UInt8) : ∃ length,
    tailParse (letter.blank ++ (letter.quoted ++ LF :: more)) = (letter.blank.length,
      scanMail letter.blank.length letter.blank.length ⟨.firstLF, length, length⟩ (letter.quoted ++ LF :: more)) := by
  refine ⟨(letter.blank ++ (letter.quoted ++ LF :: more)).length, ?_⟩
  rw [tailParse, letter.mailimfCrlfParse_blank, List.drop_left]

end Letter

namespace Entry

variable (entry : Entry)

theorem data_of_ends (more : List UInt8) :
    (singleParse (entry.text ++ more)).data (entry.text ++ more) = entry.fields.flatten ++
      (entry.letter.blank ++ (entry.letter.quoted ++ LF :: more)).take
        (tailParse (entry.letter.blank ++ (entry.letter.quoted ++ LF :: more))).2.1 := by
  have split : entry.text ++ more =
      entry.line.text ++ (entry.fields.flatten ++ (entry.letter.blank ++ (entry.letter.quoted ++ LF :: more))) := by
    simp [text]
  rw [entry.singleParse_text, split]
  exact ofTail_data _ _ _ _ _

theorem writeFixedMessage_body (body : List UInt8) :
    writeFixedMessage (entry.fields.flatten ++ (entry.letter.blank ++ body)) none =
      entry.letter.kept.flatten ++ (entry.letter.blank ++ quoteLines true body) := by
  apply entry.letter.writeFixedMessage_stored (entry.fieldsThen body)
  intro field member
  cases number : entry.uid with
  | none => simp [uidFields, number] at member
  | some uid =>
      have header := isUidHeader_uidLine (decimal uid.toNat) []
      rw [List.append_nil] at header
      simp only [uidFields, number, Option.elim_some, List.mem_singleton] at member
      rw [member, header]

theorem writeFixedMessage_data : writeFixedMessage entry.data none = entry.letter.fetched := by
  rw [data, entry.writeFixedMessage_body, entry.letter.quoteLines_quotedBody]
  rfl

theorem text_ne : entry.text ≠ [] := by
  simp [text, entry.line.text_ne]

theorem text_separator (more : List UInt8) : fromPrefix <+: entry.text ++ more := by
  rw [text, FromLine.text]
  simp only [List.append_assoc]
  exact List.prefix_append _ _

variable {more : List UInt8} (follows : Follows more)
include follows

/-- A safe letter is found as it was written. -/
theorem contentsFrom_safe (safe : entry.letter.Safe) :
    contentsFrom (entry.text ++ more) = (entry.uid.getD 0, entry.data) :: contentsFrom more := by
  have nonempty : entry.text ++ more ≠ [] := fun nothing => entry.text_ne (List.append_eq_nil_iff.mp nothing).1
  obtain ⟨length, tail⟩ := entry.letter.tailParse_letter more
  rw [scanMail_lined entry.letter.blank.length length length follows safe] at tail
  have whole : (singleParse (entry.text ++ more)).next = entry.text.length := by
    rw [entry.singleParse_text, tail]
    simp only [SingleParse.ofTail, text, List.length_append, List.length_cons, List.length_nil]
    omega
  have uid : (singleParse (entry.text ++ more)).uid = entry.uid.getD 0 := by
    rw [entry.singleParse_text]
    rfl
  have content : (singleParse (entry.text ++ more)).data (entry.text ++ more) = entry.data := by
    rw [entry.data_of_ends, tail]
    dsimp only
    rw [data, List.take_length_add_append, List.take_left]
  rw [contentsFrom_cons nonempty, uid, content, whole, List.drop_left]

/-- Another letter is found as something else. -/
theorem contentsFrom_unsafe (unsafe_ : ¬ entry.letter.Safe) :
    ∃ content contents, contentsFrom (entry.text ++ more) = content :: contents ∧
      writeFixedMessage content.2 none ≠ entry.letter.fetched := by
  have nonempty : entry.text ++ more ≠ [] := fun nothing => entry.text_ne (List.append_eq_nil_iff.mp nothing).1
  refine ⟨_, _, contentsFrom_cons nonempty, ?_⟩
  obtain ⟨length, tail⟩ := entry.letter.tailParse_letter more
  obtain ⟨content, padding, behind, split, ends, -⟩ :=
    (scanMail_endsAt entry.letter.blank.length length length (entry.letter.quoted ++ LF :: more) (fun nothing => by simp at nothing)).cut
  have misses := scanMail_misses entry.letter.blank.length length length entry.letter.lined_quoted follows unsafe_
  rw [ends] at tail misses
  dsimp only at misses ⊢
  have found : (entry.letter.blank ++ (entry.letter.quoted ++ LF :: more)).take (entry.letter.blank.length + content.length) =
      entry.letter.blank ++ content := by
    rw [List.take_length_add_append, split, List.append_assoc, List.take_left]
  rw [entry.data_of_ends, tail]
  dsimp only
  rw [found, entry.writeFixedMessage_body, Letter.fetched]
  intro same
  have body : quoteLines true content = entry.letter.quoted := List.append_cancel_left (List.append_cancel_left same)
  have lengths := congrArg List.length body
  have longer := le_quoteLines_length true content
  rcases Nat.lt_or_ge entry.letter.quoted.length content.length with beyond | within
  · omega
  · have early : content <+: entry.letter.quoted := by
      have start : content <+: entry.letter.quoted ++ LF :: more := by
        rw [split, List.append_assoc]
        exact List.prefix_append _ _
      exact (List.prefix_append_right_inj []).mp (by simpa using List.prefix_of_prefix_length_le start (List.prefix_append _ _) within)
    have isQuoted : quoteLines true content = content :=
      @Quoted.of_prefix true content entry.letter.quoted entry.letter.quoteLines_quotedBody early
    rw [isQuoted] at lengths
    omega

end Entry

def fileText (entries : List Entry) : List UInt8 := entries.flatMap Entry.text

theorem fileText_follows (entries : List Entry) : Follows (fileText entries) := by
  cases entries with
  | nil => exact .inl rfl
  | cons entry entries => exact .inr (entry.text_separator _)

theorem contentsFrom_fileText {entries : List Entry} (safe : ∀ entry ∈ entries, entry.letter.Safe) :
    contentsFrom (fileText entries) = entries.map fun entry => (entry.uid.getD 0, entry.data) := by
  induction entries with
  | nil => rw [fileText, List.flatMap_nil, contentsFrom, dif_pos rfl, List.map_nil]
  | cons entry entries ih =>
      have behind := ih fun other member => safe other (List.mem_cons_of_mem entry member)
      rw [fileText, List.flatMap_cons, ← fileText, entry.contentsFrom_safe (fileText_follows entries) (safe entry List.mem_cons_self),
        behind, List.map_cons]

/-- The contents of a file are the letters if and only if all of them are safe. -/
theorem fileText_letters (entries : List Entry) :
    (contentsFrom (fileText entries)).map (fun content => writeFixedMessage content.2 none) = entries.map (·.letter.fetched) ↔
      ∀ entry ∈ entries, entry.letter.Safe := by
  constructor
  · intro found
    induction entries with
    | nil => exact fun _ member => absurd member List.not_mem_nil
    | cons entry entries ih =>
        rw [fileText, List.flatMap_cons, ← fileText] at found
        by_cases safe : entry.letter.Safe
        · rw [entry.contentsFrom_safe (fileText_follows entries) safe, List.map_cons, List.map_cons] at found
          exact List.forall_mem_cons.mpr ⟨safe, ih (List.cons.inj found).2⟩
        · obtain ⟨content, contents, first, differs⟩ := entry.contentsFrom_unsafe (fileText_follows entries) safe
          rw [first, List.map_cons, List.map_cons] at found
          exact absurd (List.cons.inj found).1 differs
  · intro safe
    rw [contentsFrom_fileText safe, List.map_map]
    exact List.map_congr_left fun entry _ => entry.writeFixedMessage_data

end Etpan.Mbox
