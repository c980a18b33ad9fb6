import Etpan.Smtp.Ehlo

namespace Etpan.Smtp

open Etpan.Data

/-! What the scan of an AUTH line finds. -/

def mechanismAt (text : List UInt8) : Option Named :=
  authMechanisms.find? fun mechanism => startsWith mechanism.name text

theorem mechanismAt_spec {text : List UInt8} {mechanism : Named} (found : mechanismAt text = some mechanism) :
    mechanism ∈ authMechanisms ∧ startsWith mechanism.name text = true :=
  ⟨List.mem_of_find?_eq_some found, by simpa using List.find?_some found⟩

theorem authMechanisms_pos : ∀ mechanism ∈ authMechanisms, 0 < mechanism.name.length := by decide

theorem mechanismAt_length {text : List UInt8} {mechanism : Named} (found : mechanismAt text = some mechanism) :
    0 < mechanism.name.length ∧ mechanism.name.length ≤ text.length :=
  have ⟨member, starts⟩ := mechanismAt_spec found
  ⟨authMechanisms_pos mechanism member, startsWith_length starts⟩

def leadingMechanisms (word : List UInt8) : List Named :=
  match found : mechanismAt word with
  | none => []
  | some mechanism =>
      have := mechanismAt_length found
      mechanism :: leadingMechanisms (word.drop mechanism.name.length)
termination_by word.length
decreasing_by
  rw [List.length_drop]
  omega

def begunMechanisms (list : List UInt8) : List Named := (list.splitOnP isBlank).flatMap leadingMechanisms

def scannedList (line : List UInt8) : Option (List UInt8) :=
  if startsWith (asciiText "AUTH ") line ∨ startsWith (asciiText "AUTH=") line then some (line.drop 5) else none

/-- A line of the reply that the source scans has a word that begins with the mechanism. -/
def Begun (mechanism : Named) (reply : List UInt8) : Prop :=
  ∃ start ∈ lineStarts reply, ∃ list, scannedList (firstLine start) = some list ∧ mechanism ∈ begunMechanisms list

theorem authMechanisms_free :
    ∀ mechanism ∈ authMechanisms, ∀ byte ∈ mechanism.name.map tolower, isdelim byte = false := by
  decide +kernel

theorem isdelim_unchanged {byte : UInt8} (delim : isdelim byte = true) : tolower byte = byte := by
  simp only [isdelim, Bool.or_eq_true, decide_eq_true_eq] at delim
  rcases delim with (((rfl | rfl) | rfl) | rfl) | rfl <;> decide

theorem stops_of_free {name : List UInt8} (free : ∀ byte ∈ name.map tolower, isdelim byte = false) {stop : UInt8}
    (delim : isdelim stop = true) : Stops name stop where
  unchanged := isdelim_unchanged delim
  absent member := by
    have notDelim := free stop member
    rw [delim] at notDelim
    cases notDelim

theorem mechanismAt_stop {before after : List UInt8} {stop : UInt8} (delim : isdelim stop = true) :
    mechanismAt (before ++ stop :: after) = mechanismAt before := by
  refine List.find?_congr fun mechanism member => ?_
  exact startsWith_stop (stops_of_free (authMechanisms_free mechanism member) delim)

theorem mechanismAt_nil : mechanismAt [] = none := by decide

theorem leadingMechanisms_none {word : List UInt8} (none : mechanismAt word = none) : leadingMechanisms word = [] := by
  rw [leadingMechanisms]
  split
  · rfl
  · next found => rw [none] at found; cases found

theorem leadingMechanisms_some {word : List UInt8} {mechanism : Named} (some : mechanismAt word = some mechanism) :
    leadingMechanisms word = mechanism :: leadingMechanisms (word.drop mechanism.name.length) := by
  rw [leadingMechanisms]
  split
  · next found => rw [some] at found; cases found
  · next other found =>
      rw [some] at found
      cases found
      rfl

theorem begunMechanisms_eq (list : List UInt8) :
    begunMechanisms list = leadingMechanisms (list.takeWhile (!isBlank ·)) ++
      match list.dropWhile (!isBlank ·) with
      | [] => []
      | _ :: rest => begunMechanisms rest := by
  rw [begunMechanisms, splitOnP_eq, List.flatMap_cons]
  cases list.dropWhile (!isBlank ·) <;> rfl

theorem begunMechanisms_nil : begunMechanisms [] = [] := by
  rw [begunMechanisms_eq]
  simp [leadingMechanisms_none mechanismAt_nil]

theorem begunMechanisms_blank {blank : UInt8} {list : List UInt8} (separates : isBlank blank = true) :
    begunMechanisms (blank :: list) = begunMechanisms list := by
  rw [begunMechanisms_eq]
  simp [separates, leadingMechanisms_none mechanismAt_nil]

theorem isdelim_of_isBlank {byte : UInt8} (blank : isBlank byte = true) : isdelim byte = true := by
  simp only [isBlank, Bool.or_eq_true, decide_eq_true_eq] at blank
  rcases blank with rfl | rfl <;> decide

theorem mechanismAt_word (list : List UInt8) : mechanismAt (list.takeWhile (!isBlank ·)) = mechanismAt list := by
  have whole : list.takeWhile (!isBlank ·) ++ list.dropWhile (!isBlank ·) = list := List.takeWhile_append_dropWhile
  have stopped := List.head?_dropWhile_not (!isBlank ·) list
  cases left : list.dropWhile (!isBlank ·) with
  | nil =>
      rw [left, List.append_nil] at whole
      rw [whole]
  | cons blank rest =>
      rw [left] at stopped whole
      have separates : isBlank blank = true := by simpa using stopped
      conv_rhs => rw [← whole]
      exact (mechanismAt_stop (isdelim_of_isBlank separates)).symm

theorem begunMechanisms_some {list : List UInt8} {mechanism : Named} (found : mechanismAt list = some mechanism) :
    begunMechanisms list = mechanism :: begunMechanisms (list.drop mechanism.name.length) := by
  obtain ⟨member, starts⟩ := mechanismAt_spec found
  have name : ∀ byte ∈ list.take mechanism.name.length, (!isBlank byte) = true := by
    intro byte inName
    rw [Bool.not_eq_true', ← Bool.not_eq_true]
    intro blank
    have delim := isdelim_of_isBlank blank
    have lower : tolower byte ∈ mechanism.name.map tolower :=
      of_decide_eq_true starts ▸ List.mem_map_of_mem inName
    have notDelim := authMechanisms_free mechanism member _ lower
    rw [isdelim_unchanged delim, delim] at notDelim
    cases notDelim
  have length : (list.take mechanism.name.length).length = mechanism.name.length :=
    List.length_take_of_le (mechanismAt_length found).2
  have word : list.takeWhile (!isBlank ·) =
      list.take mechanism.name.length ++ (list.drop mechanism.name.length).takeWhile (!isBlank ·) := by
    conv_lhs => rw [← List.take_append_drop mechanism.name.length list]
    exact List.takeWhile_append_of_pos name
  have rest : list.dropWhile (!isBlank ·) = (list.drop mechanism.name.length).dropWhile (!isBlank ·) := by
    conv_lhs => rw [← List.take_append_drop mechanism.name.length list]
    exact List.dropWhile_append_of_pos name
  have leading := leadingMechanisms_some ((mechanismAt_word list).trans found)
  rw [begunMechanisms_eq, begunMechanisms_eq (list.drop _), leading, rest, word, List.drop_append_of_le_length length.ge,
    List.drop_eq_nil_of_le length.le, List.nil_append, List.cons_append]

theorem begunMechanisms_none {list : List UInt8} (none : mechanismAt list = none) :
    begunMechanisms list = begunMechanisms (list.dropWhile (!isBlank ·)) := by
  have stopped := List.head?_dropWhile_not (!isBlank ·) list
  rw [begunMechanisms_eq, leadingMechanisms_none ((mechanismAt_word list).trans none), List.nil_append]
  cases left : list.dropWhile (!isBlank ·) with
  | nil => exact begunMechanisms_nil.symm
  | cons blank rest =>
      rw [left] at stopped
      exact (begunMechanisms_blank (by simpa using stopped)).symm

/-- A list that the scan gets through: the line and the text end neither in it nor does a tab stand in it. -/
structure Plain (list : List UInt8) : Prop where
  noFeed : LF ∉ list
  noNul : (0 : UInt8) ∉ list
  noTab : TAB ∉ list

theorem Plain.suffix {list rest : List UInt8} (plain : Plain list) (suffix : rest <:+ list) : Plain rest where
  noFeed member := plain.noFeed (suffix.subset member)
  noNul member := plain.noNul (suffix.subset member)
  noTab member := plain.noTab (suffix.subset member)

theorem dropWhile_lineEnd {list tail : List UInt8} {skipped : UInt8 → Bool} (lineEnd : LineEnd tail)
    (stops : skipped LF = false) : (list ++ tail).dropWhile skipped = list.dropWhile skipped ++ tail := by
  have kept : tail.dropWhile skipped = tail := by
    rcases lineEnd with rfl | ⟨rest, rfl⟩
    · rfl
    · rw [List.dropWhile_cons, stops]
      rfl
  rw [List.dropWhile_append]
  split
  · next empty => rw [kept, List.isEmpty_iff.mp empty, List.nil_append]
  · rfl

theorem mechanismAt_lineEnd {list tail : List UInt8} (lineEnd : LineEnd tail) :
    mechanismAt (list ++ tail) = mechanismAt list := by
  rcases lineEnd with rfl | ⟨rest, rfl⟩
  · rw [List.append_nil]
  · exact mechanismAt_stop (by decide)

theorem Plain.skip {list : List UInt8} (plain : Plain list) :
    list.dropWhile (fun x => !isdelim x || decide (x = CR)) = list.dropWhile (!isBlank ·) := by
  induction list with
  | nil => rfl
  | cons byte rest ih =>
      have notFeed : byte ≠ LF := fun same => plain.noFeed (by simp [same])
      have notNul : byte ≠ 0 := fun same => plain.noNul (by simp [same])
      have notTab : byte ≠ TAB := fun same => plain.noTab (by simp [same])
      have same : (!isdelim byte || decide (byte = CR)) = !isBlank byte := by
        by_cases space : byte = SP
        · rw [space]
          decide
        · by_cases carriage : byte = CR
          · rw [carriage]
            decide
          · simp [isdelim, isBlank, space, carriage, notFeed, notNul, notTab]
      simp only [List.dropWhile_cons, same, ih (plain.suffix (List.suffix_cons byte rest))]

theorem begunMechanisms_spaces {list : List UInt8} :
    begunMechanisms (list.dropWhile (· = SP)) = begunMechanisms list := by
  induction list with
  | nil => rfl
  | cons byte rest ih =>
      rw [List.dropWhile_cons]
      split
      · next space =>
          have blank : isBlank byte = true := by simp [isBlank, of_decide_eq_true space]
          rw [ih, begunMechanisms_blank blank]
      · rfl

/-- On a plain list the loop stops at the end of the line and has set the flags of the
mechanisms that begin a word. -/
theorem authLoop_plain {tail : List UInt8} (lineEnd : LineEnd tail) :
    ∀ (rounds : Nat) (list : List UInt8) (auth : UInt32), Plain list → list.length < rounds →
      authLoop rounds (list ++ tail) auth =
        some (tail, (begunMechanisms list).foldl (fun auth mechanism => auth ||| mechanism.flag) auth) := by
  intro rounds
  induction rounds with
  | zero => intro list auth _ enough; omega
  | succ rounds ih =>
      intro list auth plain enough
      cases list with
      | nil =>
          rw [List.nil_append, begunMechanisms_nil, authLoop, if_neg]
          · rfl
          · rcases lineEnd with rfl | ⟨rest, rfl⟩ <;> simp
      | cons byte more =>
          have goesOn : (byte :: more ++ tail).head? ≠ some LF ∧ (byte :: more ++ tail).head? ≠ none := by
            have notFeed : byte ≠ LF := fun same => plain.noFeed (by simp [same])
            simp [notFeed]
          rw [authLoop, if_pos goesOn, dropWhile_lineEnd lineEnd (by decide)]
          generalize spaced : (byte :: more).dropWhile (· = SP) = rest
          have suffix : rest <:+ byte :: more := spaced ▸ List.dropWhile_suffix _
          have restPlain := plain.suffix suffix
          have shorter := suffix.length_le
          have begun : begunMechanisms (byte :: more) = begunMechanisms rest := spaced ▸ begunMechanisms_spaces.symm
          rw [begun]
          simp only [List.length_cons] at enough shorter
          cases found : mechanismAt rest with
          | some mechanism =>
              have length := mechanismAt_length found
              have here : authMechanisms.find? (fun mechanism => startsWith mechanism.name (rest ++ tail)) = some mechanism :=
                (mechanismAt_lineEnd lineEnd).trans found
              have next := ih (rest.drop mechanism.name.length) (auth ||| mechanism.flag)
                (restPlain.suffix (List.drop_suffix _ _)) (by rw [List.length_drop]; omega)
              simp only [here]
              rw [List.drop_append_of_le_length length.2, next, begunMechanisms_some found, List.foldl_cons]
          | none =>
              have here : authMechanisms.find? (fun mechanism => startsWith mechanism.name (rest ++ tail)) = none :=
                (mechanismAt_lineEnd lineEnd).trans found
              have closer : (rest.dropWhile (!isBlank ·)).length < rounds := by
                cases rest with
                | nil =>
                    simp only [List.dropWhile_nil, List.length_nil]
                    omega
                | cons first others =>
                    -- the spaces are gone and there is no tab, so the first octet is skipped
                    have notSpace := List.head?_dropWhile_not (· = SP) (byte :: more)
                    rw [spaced] at notSpace
                    have notTab : first ≠ TAB := fun same => restPlain.noTab (by simp [same])
                    have skipped : isBlank first = false := by
                      simp only [isBlank, Bool.or_eq_false_iff, decide_eq_false_iff_not]
                      exact ⟨by simpa using notSpace, notTab⟩
                    have le := (List.dropWhile_suffix (!isBlank ·) (l := others)).length_le
                    simp only [List.dropWhile_cons, skipped, Bool.not_false, if_true]
                    simp only [List.length_cons] at shorter
                    omega
              have next := ih (rest.dropWhile (!isBlank ·)) auth (restPlain.suffix (List.dropWhile_suffix _)) closer
              simp only [here]
              rw [dropWhile_lineEnd lineEnd (by decide), restPlain.skip, next, ← begunMechanisms_none found]

theorem authLoop_tab {after : List UInt8} :
    ∀ (rounds : Nat) (before : List UInt8) (auth : UInt32), LF ∉ before →
      authLoop rounds (before ++ TAB :: after) auth = none := by
  intro rounds
  induction rounds with
  | zero => intro before auth _; rfl
  | succ rounds ih =>
      intro before auth noFeed
      have goesOn : (before ++ TAB :: after).head? ≠ some LF ∧ (before ++ TAB :: after).head? ≠ none := by
        cases before with
        | nil => exact ⟨by simp [show TAB ≠ LF by decide], by simp⟩
        | cons byte rest =>
            have notFeed : byte ≠ LF := fun same => noFeed (by simp [same])
            simp [notFeed]
      have stopped : ∀ {skipped : UInt8 → Bool} (before : List UInt8), skipped TAB = false →
          (before ++ TAB :: after).dropWhile skipped = before.dropWhile skipped ++ TAB :: after := by
        intro skipped before stops
        rw [List.dropWhile_append]
        split
        · next empty => rw [List.isEmpty_iff.mp empty, List.nil_append, List.dropWhile_cons, stops]; rfl
        · rfl
      rw [authLoop, if_pos goesOn, stopped before (by decide)]
      have restFree : LF ∉ before.dropWhile (· = SP) := fun member =>
        noFeed ((List.dropWhile_suffix _).subset member)
      generalize before.dropWhile (· = SP) = rest at restFree
      cases found : mechanismAt rest with
      | some mechanism =>
          have here : authMechanisms.find? (fun mechanism => startsWith mechanism.name (rest ++ TAB :: after)) = some mechanism :=
            (mechanismAt_stop (by decide)).trans found
          simp only [here]
          rw [List.drop_append_of_le_length (mechanismAt_length found).2]
          exact ih _ _ fun member => restFree ((List.drop_suffix _ _).subset member)
      | none =>
          have here : authMechanisms.find? (fun mechanism => startsWith mechanism.name (rest ++ TAB :: after)) = none :=
            (mechanismAt_stop (by decide)).trans found
          simp only [here]
          rw [stopped rest (by decide)]
          exact ih _ _ fun member => restFree ((List.dropWhile_suffix _).subset member)

end Etpan.Smtp
