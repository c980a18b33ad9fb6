import Etpan.Data.Loop
import Etpan.Imap.CommandSend
import Etpan.Imap.ListRead
import Etpan.Imap.LiteralParse

namespace Etpan.Imap

open Etpan.Data Etpan.Stream

/-! The sets of `imap_msg_list_to_imap_set`, `driver/implementation/imap/imapdriver_tools.c`,
and `mailimap_set_parse`, `low-level/imap/mailimap_parser.c`. -/

def mailimapSetAddInterval (set : NumberSet) (first last : UInt32) : NumberSet := set ++ [⟨first, last⟩]

def mailimapSetAddSingle (set : NumberSet) (indx : UInt32) : NumberSet := mailimapSetAddInterval set indx indx

structure SetBuild where
  cur : List UInt32
  previousValid : Bool
  firstSeq : UInt32
  previous : UInt32
  imapSet : NumberSet

def addRun (build : SetBuild) : NumberSet :=
  if build.firstSeq = build.previous then mailimapSetAddSingle build.imapSet build.firstSeq
  else mailimapSetAddInterval build.imapSet build.firstSeq build.previous

def msgListTurn (build : SetBuild) : SetBuild ⊕ NumberSet :=
  match build.cur with
  | [] => .inr (if build.previousValid then addRun build else build.imapSet)
  | pindex :: next =>
      if !build.previousValid then
        .inl { build with firstSeq := pindex, previousValid := true, previous := pindex, cur := next }
      else if pindex ≠ build.previous + 1 then .inl { build with imapSet := addRun build, previousValid := false }
      else .inl { build with previous := pindex, cur := next }

/-- `none` says that the rounds did not suffice. -/
def imapMsgListToImapSet (rounds : Nat) (msgList : List UInt32) : Option NumberSet :=
  loop msgListTurn rounds { cur := msgList, previousValid := false, firstSeq := 0, previous := 0, imapSet := [] }

def mailimapNzNumberParse (buffer : List UInt8) (indx : Nat) : Option (UInt32 × Nat) := mailimapNumberParse buffer indx

def mailimapStarParse (buffer : List UInt8) (indx : Nat) : Option Nat := mailimapUnstrictCharParse buffer indx (ascii '*')

def mailimapColonParse (buffer : List UInt8) (indx : Nat) : Option Nat := mailimapUnstrictCharParse buffer indx (ascii ':')

def mailimapSeqNumberParse (buffer : List UInt8) (indx : Nat) : Option (UInt32 × Nat) :=
  match mailimapNzNumberParse buffer indx with
  | some found => some found
  | none => (mailimapStarParse buffer indx).map fun curToken => (0, curToken)

def mailimapSeqRangeParse (buffer : List UInt8) (indx : Nat) : Option ((UInt32 × UInt32) × Nat) := do
  let (left, curToken) ← mailimapSeqNumberParse buffer indx
  let curToken ← mailimapColonParse buffer curToken
  let (right, curToken) ← mailimapSeqNumberParse buffer curToken
  some ((left, right), curToken)

def mailimapSetItemParse (buffer : List UInt8) (indx : Nat) : Option (SetItem × Nat) :=
  match mailimapSeqRangeParse buffer indx with
  | some ((left, right), curToken) => some (⟨left, right⟩, curToken)
  | none => (mailimapSeqNumberParse buffer indx).map fun (value, curToken) => (⟨value, value⟩, curToken)

def mailimapSetParse : Parser NumberSet := mailimapStructListParse (ascii ',') (onBuffer mailimapSetItemParse)

def SetItem.run (item : SetItem) : List UInt32 :=
  (List.range' item.setFirst.toNat (item.setLast.toNat + 1 - item.setFirst.toNat)).map UInt32.ofNat

def Apart (left right : SetItem) : Prop := right.setFirst.toNat ≠ left.setLast.toNat + 1

/-- A set of ascending intervals without `*`, neighbours of which do not form one interval. -/
structure MaximalRuns (set : NumberSet) : Prop where
  ordered : ∀ item ∈ set, item.setFirst ≠ 0 ∧ item.setFirst ≤ item.setLast
  apart : set.IsChain Apart

def SetBuild.pending (build : SetBuild) : NumberSet := if build.previousValid then [⟨build.firstSeq, build.previous⟩] else []

/-- What is built so far covers what was read, and the number that ended a run starts a new one. -/
structure Building (msgList : List UInt32) (build : SetBuild) : Prop where
  covers : (build.imapSet ++ build.pending).flatMap SetItem.run ++ build.cur = msgList
  runs : MaximalRuns (build.imapSet ++ build.pending)
  fresh : build.previousValid = false → ∀ item ∈ build.imapSet.getLast?, ∀ pindex ∈ build.cur.head?, Apart item ⟨pindex, pindex⟩

theorem addRun_eq (build : SetBuild) (valid : build.previousValid = true) : addRun build = build.imapSet ++ build.pending := by
  rw [addRun, SetBuild.pending, if_pos valid]
  split
  · next same => rw [mailimapSetAddSingle, mailimapSetAddInterval, same]
  · rfl

theorem run_single (number : UInt32) : SetItem.run ⟨number, number⟩ = [number] := by
  simp [SetItem.run]

theorem run_grows {first previous : UInt32} (ordered : first ≤ previous) (noWrap : previous.toNat + 1 < 4294967296) :
    SetItem.run ⟨first, previous + 1⟩ = SetItem.run ⟨first, previous⟩ ++ [previous + 1] := by
  have next : (previous + 1).toNat = previous.toNat + 1 := by
    rw [UInt32.toNat_add, UInt32.toNat_one, Nat.mod_eq_of_lt noWrap]
  have below : first.toNat ≤ previous.toNat := UInt32.le_iff_toNat_le.mp ordered
  have count : (previous + 1).toNat + 1 - first.toNat = (previous.toNat + 1 - first.toNat) + 1 := by omega
  have last : first.toNat + (previous.toNat + 1 - first.toNat) = (previous + 1).toNat := by omega
  rw [SetItem.run, SetItem.run, count, List.range'_concat, List.map_append, Nat.one_mul, last]
  simp only [List.map_cons, List.map_nil, UInt32.ofNat_toNat]

theorem succ_noWrap {previous pindex : UInt32} (nonzero : pindex ≠ 0) (same : pindex = previous + 1) :
    previous.toNat + 1 < 4294967296 := by
  by_contra wraps
  have top : previous.toNat = 4294967295 := by
    have := previous.toNat_lt
    omega
  apply nonzero
  rw [same]
  apply UInt32.toNat_inj.mp
  rw [UInt32.toNat_add, top]
  rfl

theorem apart_of_ne {first previous pindex : UInt32} (differs : pindex ≠ previous + 1) : Apart ⟨first, previous⟩ ⟨pindex, pindex⟩ := by
  intro same
  apply differs
  apply UInt32.toNat_inj.mp
  have small := pindex.toNat_lt
  change pindex.toNat = previous.toNat + 1 at same
  rw [UInt32.toNat_add, UInt32.toNat_one, Nat.mod_eq_of_lt (by omega), same]

def SetBuild.rounds (build : SetBuild) : Nat := 2 * build.cur.length + build.previousValid.toNat

section Turn

variable {msgList : List UInt32} {build : SetBuild} {pindex : UInt32} {next : List UInt32}

theorem pending_valid (valid : build.previousValid = true) : build.pending = [⟨build.firstSeq, build.previous⟩] := by
  rw [SetBuild.pending, if_pos valid]

theorem pending_none (none_ : build.previousValid = false) : build.imapSet ++ build.pending = build.imapSet := by
  simp [SetBuild.pending, none_]

theorem Building.starts (building : Building msgList build) (cur : build.cur = pindex :: next)
    (none_ : build.previousValid = false) (nonzero : pindex ≠ 0) :
    Building msgList { build with firstSeq := pindex, previousValid := true, previous := pindex, cur := next } := by
  obtain ⟨covers, runs, fresh⟩ := building
  rw [pending_none none_] at covers runs
  refine ⟨?_, ⟨?_, ?_⟩, fun impossible => by cases impossible⟩
  · rw [pending_valid rfl, ← covers, cur]
    simp [run_single]
  · intro item member
    rw [pending_valid rfl, List.mem_append, List.mem_singleton] at member
    rcases member with member | rfl
    · exact runs.ordered item member
    · exact ⟨nonzero, UInt32.le_refl pindex⟩
  · rw [pending_valid rfl]
    refine List.isChain_append.mpr ⟨runs.apart, List.isChain_singleton _, ?_⟩
    intro last isLast item isItem
    cases isItem
    exact fresh none_ last isLast pindex (by simp [cur])

theorem Building.closes (building : Building msgList build) (cur : build.cur = pindex :: next)
    (valid : build.previousValid = true) (differs : pindex ≠ build.previous + 1) :
    Building msgList { build with imapSet := addRun build, previousValid := false } := by
  obtain ⟨covers, runs, -⟩ := building
  rw [← addRun_eq build valid] at covers runs
  refine ⟨?_, ?_, ?_⟩
  · rw [pending_none rfl, ← covers]
  · rw [pending_none rfl]
    exact runs
  · intro _ last isLast index isIndex
    simp only [addRun_eq build valid, pending_valid valid, List.getLast?_append, List.getLast?_singleton, Option.some_or] at isLast
    simp only [cur] at isIndex
    cases isLast
    cases isIndex
    exact apart_of_ne differs

theorem Building.grows (building : Building msgList build) (cur : build.cur = pindex :: next)
    (valid : build.previousValid = true) (nonzero : pindex ≠ 0) (same : pindex = build.previous + 1) :
    Building msgList { build with previous := pindex, cur := next } := by
  obtain ⟨covers, runs, -⟩ := building
  have noWrap := succ_noWrap nonzero same
  rw [pending_valid valid] at covers runs
  have item := runs.ordered ⟨build.firstSeq, build.previous⟩ (by simp)
  have still : ({ build with previous := pindex, cur := next } : SetBuild).pending = [⟨build.firstSeq, pindex⟩] :=
    pending_valid valid
  refine ⟨?_, ⟨?_, ?_⟩, fun impossible => by cases valid.symm.trans impossible⟩
  · rw [still, ← covers, cur, same]
    simp [run_grows item.2 noWrap]
  · intro other member
    rw [still, List.mem_append, List.mem_singleton] at member
    rcases member with member | rfl
    · exact runs.ordered other (List.mem_append_left _ member)
    · refine ⟨item.1, UInt32.le_iff_toNat_le.mpr ?_⟩
      have below : build.firstSeq.toNat ≤ build.previous.toNat := UInt32.le_iff_toNat_le.mp item.2
      change build.firstSeq.toNat ≤ pindex.toNat
      rw [same, UInt32.toNat_add, UInt32.toNat_one, Nat.mod_eq_of_lt noWrap]
      omega
  · rw [still]
    obtain ⟨earlier, -, joint⟩ := List.isChain_append.mp runs.apart
    refine List.isChain_append.mpr ⟨earlier, List.isChain_singleton _, ?_⟩
    intro last isLast other isOther
    cases isOther
    exact joint last isLast ⟨build.firstSeq, build.previous⟩ rfl

theorem msgListTurn_round (nonzero : ∀ number ∈ msgList, number ≠ 0) (building : Building msgList build) :
    Round (Building msgList) (fun set => set.flatMap SetItem.run = msgList ∧ MaximalRuns set) SetBuild.rounds build
      (msgListTurn build) := by
  have inList : ∀ number ∈ build.cur, number ≠ 0 := by
    intro number member
    apply nonzero
    rw [← building.covers]
    exact List.mem_append_right _ member
  rw [msgListTurn]
  split
  · next cur =>
    have covers := building.covers
    have runs := building.runs
    rw [cur, List.append_nil] at covers
    split
    · next valid =>
      rw [← addRun_eq build valid] at covers runs
      exact .left ⟨covers, runs⟩
    · next none_ =>
      rw [pending_none (Bool.eq_false_iff.mpr none_)] at covers runs
      exact .left ⟨covers, runs⟩
  · next pindex next cur =>
    have here : pindex ≠ 0 := inList pindex (by rw [cur]; exact List.mem_cons_self)
    split
    · next none_ =>
      have none_ : build.previousValid = false := by simpa using none_
      refine .next (building.starts cur none_ here) ?_
      simp only [SetBuild.rounds, cur, none_, List.length_cons, Bool.toNat_true, Bool.toNat_false]
      omega
    · next valid =>
      have valid : build.previousValid = true := by simpa using valid
      split
      · next differs =>
        refine .next (building.closes cur valid differs) ?_
        simp only [SetBuild.rounds, valid, Bool.toNat_true, Bool.toNat_false]
        omega
      · next same =>
        refine .next (building.grows cur valid here (Classical.not_not.mp same)) ?_
        simp only [SetBuild.rounds, cur, List.length_cons]
        omega

end Turn

theorem imapMsgListToImapSet_runs {msgList : List UInt32} (nonzero : ∀ number ∈ msgList, number ≠ 0) {rounds : Nat}
    (enough : 2 * msgList.length < rounds) :
    ∃ set, imapMsgListToImapSet rounds msgList = some set ∧ set.flatMap SetItem.run = msgList ∧ MaximalRuns set := by
  refine loop_ends (fun _ => msgListTurn_round nonzero) ?_ (by simpa [SetBuild.rounds] using enough)
  exact ⟨by simp [SetBuild.pending], ⟨by simp [SetBuild.pending], by simp [SetBuild.pending]⟩, by simp⟩

theorem setNumbers_runs {set : NumberSet} (runs : MaximalRuns set) (star : Nat) :
    setNumbers star set = ((set.flatMap SetItem.run).map UInt32.toNat).toFinset := by
  ext number
  simp only [setNumbers, Finset.mem_biUnion, List.mem_toFinset, SetItem.numbers, Finset.mem_Icc, List.mem_map, List.mem_flatMap,
    SetItem.run, List.mem_range'_1]
  constructor
  · rintro ⟨item, member, low, high⟩
    obtain ⟨nonzero, ordered⟩ := runs.ordered item member
    have below := UInt32.le_iff_toNat_le.mp ordered
    have lastNonzero : item.setLast ≠ 0 := by
      rintro zero
      rw [zero] at ordered
      exact nonzero (UInt32.le_zero_iff.mp ordered)
    rw [boundValue, boundValue, if_neg nonzero, if_neg lastNonzero] at low high
    have small := item.setLast.toNat_lt
    rw [Nat.min_eq_left below] at low
    rw [Nat.max_eq_right below] at high
    refine ⟨UInt32.ofNat number, ⟨item, member, number, by omega, rfl⟩, ?_⟩
    rw [UInt32.toNat_ofNat', Nat.mod_eq_of_lt (by omega)]
  · rintro ⟨_, ⟨item, member, value, within, rfl⟩, rfl⟩
    obtain ⟨nonzero, ordered⟩ := runs.ordered item member
    have below := UInt32.le_iff_toNat_le.mp ordered
    have lastNonzero : item.setLast ≠ 0 := by
      rintro zero
      rw [zero] at ordered
      exact nonzero (UInt32.le_zero_iff.mp ordered)
    have small := item.setLast.toNat_lt
    refine ⟨item, member, ?_⟩
    rw [boundValue, boundValue, if_neg nonzero, if_neg lastNonzero, Nat.min_eq_left below, Nat.max_eq_right below,
      UInt32.toNat_ofNat', Nat.mod_eq_of_lt (by omega)]
    omega

structure EndsSet (rest : List UInt8) : Prop where
  noDigit : rest.takeWhile isDigit = []
  noMark : ∀ byte ∈ (rest.dropWhile isSpaceOrTab).head?, byte ≠ ascii ':' ∧ byte ≠ ascii ','

section Reading

variable {buffer rest : List UInt8} {indx : Nat}

theorem drop_skipSpace (buffer : List UInt8) (indx : Nat) :
    buffer.drop (skipSpace buffer indx) = (buffer.drop indx).dropWhile isSpaceOrTab := by
  have split := List.takeWhile_append_dropWhile (p := isSpaceOrTab) (l := buffer.drop indx)
  rw [skipSpace, mailimapSpaceParse]
  split
  · next noBlank =>
    rw [noBlank, List.nil_append] at split
    rw [Option.getD_none, split]
  · exact drop_behind split.symm

theorem mailimapUnstrictCharParse_none {token : UInt8} (notSpace : token ≠ ascii ' ')
    (other : ∀ byte ∈ ((buffer.drop indx).dropWhile isSpaceOrTab).head?, byte ≠ token) :
    mailimapUnstrictCharParse buffer indx token = none := by
  rw [mailimapUnstrictCharParse, if_neg notSpace, mailimapCharParse, if_neg]
  intro here
  rw [← List.head?_drop, drop_skipSpace] at here
  exact other token here rfl

theorem mailimapSeqNumberParse_at (sequenceNum : UInt32) (at_ : buffer.drop indx = sequenceNumText sequenceNum ++ rest)
    (ends : rest.takeWhile isDigit = []) :
    mailimapSeqNumberParse buffer indx = some (sequenceNum, indx + (sequenceNumText sequenceNum).length) := by
  rw [sequenceNumText] at at_ ⊢
  split at at_
  · next zero =>
    have noNumber : mailimapNzNumberParse buffer indx = none := by
      have star : buffer.drop indx = ascii '*' :: rest := at_
      simp only [mailimapNzNumberParse, mailimapNumberParse, skipSpace_at star (by decide),
        @mailimapCharParse_other _ _ _ (ascii '-') _ star (by decide), Option.getD_none, star]
      rfl
    rw [mailimapSeqNumberParse, noNumber]
    simp only [mailimapStarParse, mailimapUnstrictCharParse_at at_ (by decide), zero]
    rfl
  · next nonzero =>
    have small := sequenceNum.toNat_lt
    rw [mailimapSeqNumberParse, mailimapNzNumberParse, mailimapNumberParse_at at_ ends, if_neg nonzero,
      Nat.min_eq_left (by omega), UInt32.ofNat_toNat]

theorem mailimapSetItemParse_at (item : SetItem) (at_ : buffer.drop indx = setItemText item ++ rest)
    (noDigit : rest.takeWhile isDigit = []) (noColon : ∀ byte ∈ (rest.dropWhile isSpaceOrTab).head?, byte ≠ ascii ':') :
    mailimapSetItemParse buffer indx = some (item, indx + (setItemText item).length) := by
  rw [setItemText] at at_ ⊢
  split at at_
  · next same =>
    have number := mailimapSeqNumberParse_at item.setFirst at_ noDigit
    have noColon : mailimapColonParse buffer (indx + (sequenceNumText item.setFirst).length) = none := by
      apply mailimapUnstrictCharParse_none (by decide)
      rw [drop_behind at_]
      exact noColon
    rw [if_pos same, mailimapSetItemParse, mailimapSeqRangeParse, number]
    simp only [Option.bind_eq_bind, Option.bind_some, noColon, Option.bind_none, Option.map_some]
    obtain ⟨first, last⟩ := item
    cases same
    rfl
  · next differs =>
    rw [List.append_assoc, List.cons_append] at at_
    have first := mailimapSeqNumberParse_at item.setFirst at_ (List.takeWhile_cons_of_neg (by decide))
    have behind := drop_behind at_
    have colon : mailimapColonParse buffer (indx + (sequenceNumText item.setFirst).length) = some (indx + (sequenceNumText item.setFirst).length + 1) :=
      mailimapUnstrictCharParse_at behind (by decide)
    have second := mailimapSeqNumberParse_at item.setLast (@drop_behind _ _ _ [ascii ':'] behind) noDigit
    rw [if_neg differs, mailimapSetItemParse, mailimapSeqRangeParse, first]
    simp only [Option.bind_eq_bind, Option.bind_some, colon]
    rw [show ([ascii ':'] : List UInt8).length = 1 from rfl] at second
    simp only [second, Option.bind_some, List.length_append, List.length_cons]
    rw [Nat.add_assoc, Nat.add_assoc, Nat.add_comm 1]

def EndsSetItem (rest : List UInt8) : Prop :=
  rest.takeWhile isDigit = [] ∧ ∀ byte ∈ (rest.dropWhile isSpaceOrTab).head?, byte ≠ ascii ':'

theorem readsSetItems (source : Source) (items : List SetItem) :
    ReadsItems (ascii ',') (onBuffer mailimapSetItemParse) setItemText id source EndsSetItem items where
  read item _ _ _ ends at_ := by
    simp only [onBuffer, mailimapSetItemParse_at item at_ ends.1 ends.2, id]
  separated item _ rest := by
    refine ⟨List.takeWhile_cons_of_neg (by decide), fun byte isByte => ?_⟩
    cases isByte
    decide
  separator item _ _ _ at_ := mailimapUnstrictCharParse_at at_ (by decide)

theorem stopsSet {source : Source} (ends : EndsSet rest) : StopsList (ascii ',') (onBuffer mailimapSetItemParse) source rest := by
  intro indx turns structList at_
  have noComma : mailimapUnstrictCharParse source.buffer indx (ascii ',') = none := by
    apply mailimapUnstrictCharParse_none (by decide)
    rw [at_]
    exact fun byte isByte => (ends.noMark byte isByte).2
  rw [structListLoop, noComma]

end Reading

/-- The set that is sent is read back where it stands, whatever ends it. -/
def SetReadBack (set : NumberSet) : Prop :=
  ∀ source indx rest, source.buffer.drop indx = (mailimapSetSend set).text ++ rest → EndsSet rest →
    mailimapSetParse source indx = (.ok (set, indx + (mailimapSetSend set).text.length), source)

theorem setReadBack_of_ne_nil {set : NumberSet} (nonempty : set ≠ []) : SetReadBack set := by
  intro source indx rest at_ ends
  cases set with
  | nil => exact absurd rfl nonempty
  | cons item items =>
      rw [mailimapSetSend_text, setText] at at_ ⊢
      rw [mailimapSetParse, mailimapStructListParse_at (readsSetItems source (item :: items))
        ⟨ends.noDigit, fun byte isByte => (ends.noMark byte isByte).1⟩ (stopsSet ends) at_, List.map_id]

/-- The set of a list of numbers that are not zero has exactly these numbers, a run of ascending numbers
as one interval, and no `*`; it is read back if the list is not empty, as any set that is not empty is. -/
theorem imapMsgListToImapSet_exact {msgList : List UInt32} (nonzero : ∀ number ∈ msgList, number ≠ 0) {rounds : Nat}
    (enough : 2 * msgList.length < rounds) :
    (∃ set, imapMsgListToImapSet rounds msgList = some set ∧
      (∀ star, setNumbers star set = (msgList.map UInt32.toNat).toFinset) ∧
      (∀ item ∈ set, item.setFirst ≠ 0 ∧ item.setLast ≠ 0) ∧
      set.flatMap SetItem.run = msgList ∧ MaximalRuns set ∧ (msgList ≠ [] → SetReadBack set)) ∧
    ∀ set : NumberSet, set ≠ [] → SetReadBack set := by
  obtain ⟨set, built, covers, runs⟩ := imapMsgListToImapSet_runs nonzero enough
  refine ⟨⟨set, built, fun star => ?_, fun item member => ?_, covers, runs, fun more => setReadBack_of_ne_nil ?_⟩,
    fun _ => setReadBack_of_ne_nil⟩
  · rw [setNumbers_runs runs, covers]
  · obtain ⟨first, ordered⟩ := runs.ordered item member
    refine ⟨first, fun zero => first ?_⟩
    rw [zero] at ordered
    exact UInt32.le_zero_iff.mp ordered
  · rintro rfl
    exact more covers.symm

theorem imapMsgListToImapSet_exact_wrap :
    (∃ set, imapMsgListToImapSet 13 [7, 8, 9, 4294967295, 1, 1] = some set ∧
      (∀ star, setNumbers star set = ([7, 8, 9, 4294967295, 1, 1].map UInt32.toNat).toFinset) ∧
      (∀ item ∈ set, item.setFirst ≠ 0 ∧ item.setLast ≠ 0) ∧
      set.flatMap SetItem.run = [7, 8, 9, 4294967295, 1, 1] ∧ MaximalRuns set ∧
      ([7, 8, 9, 4294967295, 1, 1] ≠ ([] : List UInt32) → SetReadBack set)) ∧
    ∀ set : NumberSet, set ≠ [] → SetReadBack set :=
  imapMsgListToImapSet_exact (by simp) (by simp)

/-- The set of no numbers is sent as nothing, which is not a set. -/
theorem imapMsgListToImapSet_empty : imapMsgListToImapSet 1 [] = some [] ∧ ¬ SetReadBack [] := by
  refine ⟨rfl, fun readBack => ?_⟩
  have parsed := readBack ⟨[], none⟩ 0 [] rfl ⟨rfl, by simp⟩
  have failed : (mailimapSetParse ⟨[], none⟩ 0).1 = .error .parse := by decide
  rw [parsed] at failed
  cases failed

end Etpan.Imap
