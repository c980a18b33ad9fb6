import Etpan.Imap.SearchReading

namespace Etpan.Imap

open Computability Etpan.Data Grammar

/-! A text is read as one search key only: the first word says which production made it, and
each production reads its arguments uniquely. -/

/-! ### The words that keys start with -/

inductive KeyWord where
  | flag (type : SearchFlag)
  | string (type : SearchString)
  | date (type : SearchDate)
  | size (type : SearchSize)
  | keyword
  | unkeyword
  | header
  | not
  | or
  | uid
deriving Repr, DecidableEq

def KeyWord.token : KeyWord → String
  | .flag type => type.token
  | .string type => type.token
  | .date type => type.token
  | .size type => type.token
  | .keyword => "KEYWORD"
  | .unkeyword => "UNKEYWORD"
  | .header => "HEADER"
  | .not => "NOT"
  | .or => "OR"
  | .uid => "UID"

def KeyWord.letters (word : KeyWord) : List UInt8 := (asciiText word.token).map tolower

def keyWords : List KeyWord :=
  [.flag .all, .flag .answered, .flag .deleted, .flag .flagged, .flag .new, .flag .old, .flag .recent, .flag .seen,
    .flag .unanswered, .flag .undeleted, .flag .unflagged, .flag .unseen, .flag .draft, .flag .undraft,
    .string .bcc, .string .body, .string .cc, .string .from_, .string .subject, .string .text, .string .to,
    .date .before, .date .on, .date .since, .date .sentbefore, .date .senton, .date .sentsince,
    .size .larger, .size .smaller, .keyword, .unkeyword, .header, .not, .or, .uid]

theorem mem_keyWords (word : KeyWord) : word ∈ keyWords := by
  cases word with
  | flag type => cases type <;> decide
  | string type => cases type <;> decide
  | date type => cases type <;> decide
  | size type => cases type <;> decide
  | _ => decide

theorem keyWords_spec : (keyWords.map KeyWord.letters).Nodup ∧
    ∀ word ∈ keyWords, word.letters ≠ [] ∧ word.letters.all isLetter = true := by
  decide

theorem KeyWord.letters_inj {word word' : KeyWord} (same : word.letters = word'.letters) : word = word' :=
  List.inj_on_of_nodup_map keyWords_spec.1 (mem_keyWords word) (mem_keyWords word') same

theorem KeyWord.terminal_over (word : KeyWord) : Over isLetter (terminal word.token) := by
  apply terminal_over_letters
  have letters := (keyWords_spec.2 word (mem_keyWords word)).2
  rwa [KeyWord.letters, List.all_map] at letters

inductive KeyStart where
  | word (keyWord : KeyWord)
  | set
  | multiple
  | none

def SearchKey.start : SearchKey → KeyStart
  | .flag type => .word (.flag type)
  | .string type _ => .word (.string type)
  | .date type _ => .word (.date type)
  | .size type _ => .word (.size type)
  | .keyword _ => .word .keyword
  | .unkeyword _ => .word .unkeyword
  | .header _ _ => .word .header
  | .not _ => .word .not
  | .or _ _ => .word .or
  | .uid _ => .word .uid
  | .set _ => .set
  | .multiple _ => .multiple
  | .xgmthrid _ | .xgmmsgid _ | .xgmraw _ | .modseq .. => .none

def KeyStart.Starts (text : List UInt8) : KeyStart → Prop
  | .word keyWord => ∃ front back, front ∈ terminal keyWord.token ∧ StopsAt isArgumentEnd back ∧ text = front ++ back
  | .set => ∃ byte more, isSetChar byte = true ∧ text = byte :: more
  | .multiple => ∃ more, text = ascii '(' :: more
  | .none => False

theorem starts_word {token : KeyWord} {arguments : Language UInt8} {text : List UInt8}
    (isText : text ∈ terminal token.token * (SP * arguments)) : (KeyStart.word token).Starts text := by
  obtain ⟨front, isFront, back, isBack, rfl⟩ := Language.mem_mul.mp isText
  exact ⟨front, back, isFront, (stopsAt_SP_mul back isBack).mono fun byte space => by
    rw [isArgumentEnd, space, Bool.true_or], rfl⟩

theorem setReads_head {set : NumberSet} {text : List UInt8} (reads : text ∈ setReads set) :
    ∃ byte more, isSetChar byte = true ∧ text = byte :: more := by
  have itemHead : ∀ {item : SetItem} {text : List UInt8}, text ∈ setItemReads item →
      ∃ byte more, isSetChar byte = true ∧ text = byte :: more := by
    have numHead : ∀ {number : UInt32} {text : List UInt8}, text ∈ sequenceNumReads number →
        ∃ byte more, isSetChar byte = true ∧ text = byte :: more := by
      rintro number text (⟨isNumber, -⟩ | ⟨isStar, -⟩)
      · obtain ⟨front, ⟨byte, digit, rfl⟩, back, -, rfl⟩ := Language.mem_mul.mp isNumber
        exact ⟨byte, back, (isSetChar_spec byte).2.2 digit, rfl⟩
      · exact ⟨ascii '*', [], rfl, mem_star.mp isStar⟩
    rintro item text (⟨single, -⟩ | interval)
    · exact numHead single
    · obtain ⟨front, isFront, back, -, rfl⟩ := Language.mem_mul.mp interval
      obtain ⟨byte, more, setChar, rfl⟩ := numHead isFront
      exact ⟨byte, more ++ back, setChar, rfl⟩
  match set, reads with
  | [], reads => exact absurd reads (Language.notMem_zero text)
  | [item], reads => exact itemHead reads
  | item :: next :: set, reads =>
      obtain ⟨front, isFront, back, -, rfl⟩ := Language.mem_mul.mp reads
      obtain ⟨byte, more, setChar, rfl⟩ := itemHead isFront
      exact ⟨byte, more ++ back, setChar, rfl⟩

theorem KeyWord.terminal_head {keyWord : KeyWord} {front : List UInt8} (isFront : front ∈ terminal keyWord.token) :
    ∃ byte more, isLetter byte = true ∧ front = byte :: more := by
  have letters : front.map tolower = keyWord.letters := isFront
  cases front with
  | nil => exact absurd letters.symm (keyWords_spec.2 keyWord (mem_keyWords keyWord)).1
  | cons byte more => exact ⟨byte, more, keyWord.terminal_over _ isFront byte (by simp), rfl⟩

theorem letter_not_set {byte : UInt8} (letter : isLetter byte = true) (setChar : isSetChar byte = true) : False := by
  have checked : ∀ byte : UInt8, isLetter byte = true → isSetChar byte = false := forall_octet (by decide +kernel)
  rw [checked byte letter] at setChar
  cases setChar

theorem KeyStart.eq_of_starts {start start' : KeyStart} {text text' rest rest' : List UInt8} (starts : start.Starts text)
    (starts' : start'.Starts text') (stops : StopsAt isArgumentEnd rest) (stops' : StopsAt isArgumentEnd rest')
    (same : text ++ rest = text' ++ rest') : start = start' := by
  cases start with
  | none => cases starts
  | word keyWord =>
      obtain ⟨front, back, isFront, backStops, rfl⟩ := starts
      obtain ⟨byte, more, letter, spelled⟩ := KeyWord.terminal_head isFront
      cases start' with
      | none => cases starts'
      | word keyWord' =>
          obtain ⟨front', back', isFront', backStops', rfl⟩ := starts'
          simp only [List.append_assoc] at same
          obtain ⟨rfl, -⟩ := append_eq_of_class (keyWord.terminal_over front isFront) (keyWord'.terminal_over front' isFront')
            ((backStops.append stops).mono (isArgumentEnd_outside rfl rfl))
            ((backStops'.append stops').mono (isArgumentEnd_outside rfl rfl)) same
          have letters : keyWord.letters = keyWord'.letters := Eq.trans (Eq.symm isFront) isFront'
          rw [KeyWord.letters_inj letters]
      | set =>
          obtain ⟨byte', more', setChar, rfl⟩ := starts'
          rw [spelled] at same
          rw [← (List.cons.inj same).1] at setChar
          exact (letter_not_set letter setChar).elim
      | multiple =>
          obtain ⟨more', rfl⟩ := starts'
          rw [spelled] at same
          rw [(List.cons.inj same).1] at letter
          exact absurd letter (by decide)
  | set =>
      obtain ⟨byte, more, setChar, rfl⟩ := starts
      cases start' with
      | none => cases starts'
      | word keyWord' =>
          obtain ⟨front', back', isFront', backStops', rfl⟩ := starts'
          obtain ⟨byte', more', letter, rfl⟩ := KeyWord.terminal_head isFront'
          rw [(List.cons.inj same).1] at setChar
          exact (letter_not_set letter setChar).elim
      | set => rfl
      | multiple =>
          obtain ⟨more', rfl⟩ := starts'
          rw [(List.cons.inj same).1] at setChar
          exact absurd setChar (by decide)
  | multiple =>
      obtain ⟨more, rfl⟩ := starts
      cases start' with
      | none => cases starts'
      | word keyWord' =>
          obtain ⟨front', back', isFront', backStops', rfl⟩ := starts'
          obtain ⟨byte', more', letter, rfl⟩ := KeyWord.terminal_head isFront'
          rw [← (List.cons.inj same).1] at letter
          exact absurd letter (by decide)
      | set =>
          obtain ⟨byte', more', setChar, rfl⟩ := starts'
          rw [← (List.cons.inj same).1] at setChar
          exact absurd setChar (by decide)
      | multiple => rfl

section Unique

variable {unkeywordReads : List UInt8 → Language UInt8}

theorem searchKeyReadsWith_starts {key : SearchKey} {text : List UInt8} (reads : text ∈ searchKeyReadsWith unkeywordReads key) :
    key.start.Starts text := by
  cases key with
  | flag type =>
      rw [searchKeyReadsWith] at reads
      exact ⟨text, [], reads, stopsAt_nil _, (List.append_nil text).symm⟩
  | set skSet =>
      rw [searchKeyReadsWith] at reads
      exact setReads_head reads
  | multiple skMultiple =>
      rw [searchKeyReadsWith] at reads
      obtain ⟨front, isFront, back, -, rfl⟩ := Language.mem_mul.mp reads
      rw [(mem_symbol rfl rfl).mp isFront]
      exact ⟨back, rfl⟩
  | xgmthrid | xgmmsgid | xgmraw | modseq =>
      rw [searchKeyReadsWith] at reads
      exact absurd reads (Language.notMem_zero text)
  | _ =>
      rw [searchKeyReadsWith] at reads
      exact starts_word reads

theorem searchKeyReadsWith_start {key key' : SearchKey} {text text' rest rest' : List UInt8}
    (reads : text ∈ searchKeyReadsWith unkeywordReads key) (reads' : text' ∈ searchKeyReadsWith unkeywordReads key')
    (stops : StopsAt isArgumentEnd rest) (stops' : StopsAt isArgumentEnd rest') (same : text ++ rest = text' ++ rest') :
    key'.start = key.start :=
  (KeyStart.eq_of_starts (searchKeyReadsWith_starts reads) (searchKeyReadsWith_starts reads') stops stops' same).symm

theorem readsOnly_keyed {α : Type} {arguments : α → Language UInt8} {argument : α} (token : KeyWord) (key : α → SearchKey)
    (production : ∀ argument, searchKeyReadsWith unkeywordReads (key argument) = terminal token.token * (SP * arguments argument))
    (start : ∀ argument, (key argument).start = .word token)
    (only : ∀ other : SearchKey, other.start = .word token → ∃ argument, other = key argument)
    (reads : ReadsOnly arguments isArgumentEnd argument) :
    ReadsOnly (searchKeyReadsWith unkeywordReads) isArgumentEnd (key argument) := by
  intro other text text' rest rest' isText isText' stops stops' same
  obtain ⟨argument', rfl⟩ := only other ((searchKeyReadsWith_start isText isText' stops stops' same).trans (start argument))
  rw [production] at isText isText'
  obtain ⟨front, word, word', rfl, rfl, isWord, isWord', behind⟩ := terminal_arguments (fun _ => mem_SP) isText isText' same
  obtain ⟨rfl, rfl, rfl⟩ := reads isWord isWord' stops stops' behind
  exact ⟨rfl, rfl, rfl⟩

theorem searchKeysReadsWith_eq (keys : List SearchKey) :
    searchKeysReadsWith unkeywordReads keys = listReads SP (searchKeyReadsWith unkeywordReads) keys := by
  induction keys with
  | nil => rw [searchKeysReadsWith, listReads]
  | cons key keys ih =>
      cases keys with
      | nil => rw [searchKeysReadsWith, listReads]
      | cons next keys => rw [searchKeysReadsWith, listReads, ih]

theorem searchKeysReadsWith_unique {keys : List SearchKey}
    (each : ∀ key ∈ keys, ReadsOnly (searchKeyReadsWith unkeywordReads) isArgumentEnd key) :
    ReadsOnly (searchKeysReadsWith unkeywordReads) (fun byte => byte = ascii ')') keys := by
  have lists : ReadsOnly (listReads SP (searchKeyReadsWith unkeywordReads)) (fun byte => byte = ascii ')') keys := by
    refine listReads_unique (fun _ => mem_SP) rfl ?_ each
    intro byte isEnd
    rw [of_decide_eq_true isEnd]
    exact ⟨rfl, by decide⟩
  intro other text text' rest rest' isText isText'
  rw [searchKeysReadsWith_eq] at isText isText'
  exact lists isText isText'

theorem readsOnly_multiple {keys : List SearchKey}
    (each : ∀ key ∈ keys, ReadsOnly (searchKeyReadsWith unkeywordReads) isArgumentEnd key) :
    ReadsOnly (searchKeyReadsWith unkeywordReads) isArgumentEnd (.multiple keys) := by
  intro other text text' rest rest' isText isText' stops stops' same
  have start := searchKeyReadsWith_start isText isText' stops stops' same
  cases other with
  | multiple keys' =>
      rw [searchKeyReadsWith] at isText isText'
      obtain ⟨front, isFront, back, isBack, rfl⟩ := Language.mem_mul.mp isText
      obtain ⟨front', isFront', back', isBack', rfl⟩ := Language.mem_mul.mp isText'
      obtain ⟨inner, isInner, last, isLast, rfl⟩ := Language.mem_mul.mp isBack
      obtain ⟨inner', isInner', last', isLast', rfl⟩ := Language.mem_mul.mp isBack'
      obtain rfl := mem_cparenth.mp isLast
      obtain rfl := mem_cparenth.mp isLast'
      simp only [List.append_assoc] at same
      obtain ⟨rfl, behind⟩ := List.append_inj same (by rw [terminal_length isFront, terminal_length isFront'])
      obtain ⟨rfl, rfl, rest⟩ := searchKeysReadsWith_unique each isInner isInner' (by simp) (by simp) behind
      exact ⟨rfl, rfl, (List.cons.inj rest).2⟩
  | _ => cases start

theorem readsOnly_flag (type : SearchFlag) : ReadsOnly (searchKeyReadsWith unkeywordReads) isArgumentEnd (.flag type) := by
  intro other text text' rest rest' isText isText' stops stops' same
  have start := searchKeyReadsWith_start isText isText' stops stops' same
  cases other with
  | flag type' =>
      cases start
      rw [searchKeyReadsWith] at isText isText'
      obtain ⟨rfl, rfl⟩ := List.append_inj same (by rw [terminal_length isText, terminal_length isText'])
      exact ⟨rfl, rfl, rfl⟩
  | _ => cases start

theorem readsOnly_set (set : NumberSet) : ReadsOnly (searchKeyReadsWith unkeywordReads) isArgumentEnd (.set set) := by
  intro other text text' rest rest' isText isText' stops stops' same
  have start := searchKeyReadsWith_start isText isText' stops stops' same
  cases other with
  | set set' =>
      rw [searchKeyReadsWith] at isText isText'
      obtain ⟨rfl, rfl, rfl⟩ := setReads_unique set isText isText' stops stops' same
      exact ⟨rfl, rfl, rfl⟩
  | _ => cases start

theorem readsOnly_none {key : SearchKey} (none : searchKeyReadsWith unkeywordReads key = 0) :
    ReadsOnly (searchKeyReadsWith unkeywordReads) isArgumentEnd key := by
  intro other text text' rest rest' isText
  rw [none] at isText
  exact absurd isText (Language.notMem_zero text)

theorem searchKeyReadsWith_unique (unkeyword : UniquelyRead unkeywordReads isArgumentEnd) (key : SearchKey) :
    ReadsOnly (searchKeyReadsWith unkeywordReads) isArgumentEnd key := by
  have astring : UniquelyRead astringReads isArgumentEnd := astringReads_unique.mono (isArgumentEnd_outside rfl rfl)
  cases key with
  | flag type => exact readsOnly_flag type
  | string type string =>
      refine readsOnly_keyed (.string type) (.string type) (fun _ => by rw [searchKeyReadsWith]; rfl) (fun _ => rfl) ?_ (astring string)
      intro other start
      cases other with
      | string type' string' => cases start; exact ⟨string', rfl⟩
      | _ => cases start
  | date type date =>
      refine readsOnly_keyed (.date type) (.date type) (fun _ => by rw [searchKeyReadsWith]; rfl) (fun _ => rfl) ?_ (dateReads_unique date)
      intro other start
      cases other with
      | date type' date' => cases start; exact ⟨date', rfl⟩
      | _ => cases start
  | size type number =>
      refine readsOnly_keyed (.size type) (.size type) (fun _ => by rw [searchKeyReadsWith]; rfl) (fun _ => rfl) ?_
        ((numberReads_unique number).mono (isArgumentEnd_outside rfl rfl))
      intro other start
      cases other with
      | size type' number' => cases start; exact ⟨number', rfl⟩
      | _ => cases start
  | keyword string =>
      refine readsOnly_keyed .keyword .keyword (fun _ => by rw [searchKeyReadsWith]; rfl) (fun _ => rfl) ?_
        ((flagKeywordReads_unique string).mono (isArgumentEnd_outside rfl rfl))
      intro other start
      cases other with
      | keyword string' => exact ⟨string', rfl⟩
      | _ => cases start
  | unkeyword string =>
      refine readsOnly_keyed .unkeyword .unkeyword (fun _ => by rw [searchKeyReadsWith]; rfl) (fun _ => rfl) ?_ (unkeyword string)
      intro other start
      cases other with
      | unkeyword string' => exact ⟨string', rfl⟩
      | _ => cases start
  | header name value =>
      have pairs := (astringReads_unique name).mul (astring value) (fun _ => mem_SP) rfl
      refine readsOnly_keyed .header (fun pair => .header pair.1 pair.2) (fun _ => by rw [searchKeyReadsWith]; rfl)
        (fun _ => rfl) ?_ pairs
      intro other start
      cases other with
      | header name' value' => exact ⟨(name', value'), rfl⟩
      | _ => cases start
  | not inner =>
      refine readsOnly_keyed .not .not (fun _ => by rw [searchKeyReadsWith]; rfl) (fun _ => rfl) ?_
        (searchKeyReadsWith_unique unkeyword inner)
      intro other start
      cases other with
      | not inner' => exact ⟨inner', rfl⟩
      | _ => cases start
  | or first second =>
      have pairs := (searchKeyReadsWith_unique unkeyword first).mul (searchKeyReadsWith_unique unkeyword second)
        (fun _ => mem_SP) rfl
      refine readsOnly_keyed .or (fun pair => .or pair.1 pair.2) (fun _ => by rw [searchKeyReadsWith]; rfl)
        (fun _ => rfl) ?_ pairs
      intro other start
      cases other with
      | or first' second' => exact ⟨(first', second'), rfl⟩
      | _ => cases start
  | uid set =>
      refine readsOnly_keyed .uid .uid (fun _ => by rw [searchKeyReadsWith]; rfl) (fun _ => rfl) ?_ (setReads_unique set)
      intro other start
      cases other with
      | uid set' => exact ⟨set', rfl⟩
      | _ => cases start
  | set set => exact readsOnly_set set
  | multiple keys =>
      apply readsOnly_multiple
      intro inner member
      exact searchKeyReadsWith_unique unkeyword inner
  | xgmthrid | xgmmsgid | xgmraw | modseq => exact readsOnly_none (by rw [searchKeyReadsWith])
termination_by sizeOf key
decreasing_by
  all_goals subst key
  all_goals simp_wf
  all_goals first | omega | exact Nat.lt_trans (List.sizeOf_lt_of_mem member) (by omega)

end Unique

end Etpan.Imap
