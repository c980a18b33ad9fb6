import Etpan.Cache.FlagsStore
import Etpan.DataTypes.CarrayList
import Etpan.DataTypes.ChashMap

namespace Etpan.Cache

open Etpan.Data Etpan.DataTypes Carray Chash

/-! What the flags store gives back, in runs that sort only a table that is in order. -/

theorem uintOf_uintDatum (value : UInt32) : uintOf (uintDatum value) = value :=
  readLittleEndian_littleEndian value

theorem uintDatum_injective {one two : UInt32} (same : uintDatum one = uintDatum two) : one = two := by
  rw [← uintOf_uintDatum one, same, uintOf_uintDatum]

theorem mailFlagsDup_eq (flags : MailFlags) : mailFlagsDup flags = flags := by
  have copied : ∀ (list front : List (List UInt8)), list.foldl (fun list ext => list ++ [ext]) front = front ++ list := by
    intro list
    induction list with
    | nil => simp
    | cons ext rest ih => intro front; simp [ih]
  rw [mailFlagsDup, copied, List.nil_append]

theorem mailmessageBuild_eq (msg : Mailmessage) : mailmessageBuild msg = msg := by
  have same : msg.msgFlags.map mailFlagsDup = msg.msgFlags := by
    cases msg.msgFlags with
    | none => rfl
    | some flags => rw [Option.map_some, mailFlagsDup_eq]
  rw [mailmessageBuild, same]

/-- The positions that the hash table tells are those of the messages, and their flags are those of the map. -/
structure Held (store : MailFlagsStore) (list : List Mailmessage) (map : UInt32 → Option MailFlags) : Prop where
  valid : store.flsTab.Valid
  capacity : ∃ k, store.flsTab.max.toNat = 2 ^ k
  messages : store.flsTab.contents = list.map some
  distinct : (list.map Mailmessage.msgIndex).Nodup
  hash : ∃ hashed, Chash.Holds store.flsHash hashed ∧ ∀ indx,
    hashed (uintDatum indx) = ((list.map Mailmessage.msgIndex).idxOf? indx).map fun position => uintDatum (UInt32.ofNat position)
  stored (indx : UInt32) :
    map indx = ((list.map Mailmessage.msgIndex).idxOf? indx).bind fun position => list[position]?.bind Mailmessage.msgFlags
  flagged : ∀ msg ∈ list, msg.msgFlags ≠ none

variable {store : MailFlagsStore} {list : List Mailmessage} {map : UInt32 → Option MailFlags}

theorem Held.length (held : Held store list map) : list.length = store.flsTab.len.toNat := by
  rw [← held.valid.contents_length, held.messages, List.length_map]

theorem Held.short (held : Held store list map) : store.flsTab.len.toNat ≤ 2 ^ 31 := by
  obtain ⟨k, power⟩ := held.capacity
  have bounded := store.flsTab.max.toNat_lt
  rw [power] at bounded
  have exponent : k < 32 := (Nat.pow_lt_pow_iff_right (by omega)).mp bounded
  have most : 2 ^ k ≤ 2 ^ 31 := Nat.pow_le_pow_right (by omega) (by omega)
  have fits := UInt32.le_iff_toNat_le.mp held.valid.fits
  omega

theorem position_bounded (held : Held store list map) {indx : UInt32} {position : Nat}
    (found : (list.map Mailmessage.msgIndex).idxOf? indx = some position) :
    position < list.length ∧ (UInt32.ofNat position).toNat = position ∧
      (list.map Mailmessage.msgIndex)[position]? = some indx := by
  obtain ⟨inside, here, _⟩ := List.idxOf?_eq_some_iff.mp found
  have short := held.short
  have length := held.length
  rw [List.length_map] at inside
  refine ⟨inside, ?_, ?_⟩
  · rw [UInt32.toNat_ofNat', Nat.mod_eq_of_lt (by omega)]
  · rw [List.getElem?_eq_getElem (by rwa [List.length_map]), here]

theorem Held.slot (held : Held store list map) {position : Nat} (inside : position < list.length) :
    store.flsTab.array[position]? = some list[position]? := by
  have length := held.length
  have within := held.valid.within
  have slot : store.flsTab.contents[position]? = some (some list[position]) := by
    rw [held.messages, List.getElem?_map, List.getElem?_eq_getElem inside]
    rfl
  rw [contents, List.getElem?_take_of_lt (by omega)] at slot
  rw [slot, List.getElem?_eq_getElem inside]

theorem Held.get (held : Held store list map) (indx : UInt32) : mailFlagsStoreGet store indx = map indx := by
  obtain ⟨hashed, holds, positions⟩ := held.hash
  rw [mailFlagsStoreGet, holds.get, positions, held.stored]
  cases found : (list.map Mailmessage.msgIndex).idxOf? indx with
  | none => rfl
  | some position =>
      obtain ⟨inside, exact, _⟩ := position_bounded held found
      have slot := held.slot inside
      simp only [Option.map_some, Option.bind_some, uintOf_uintDatum, carrayGet, exact, List.getD_eq_getElem?_getD, slot,
        Option.getD_some]
      rw [List.getElem?_eq_getElem inside]
      simp only [Option.bind_some]
      cases list[position].msgFlags with
      | none => rfl
      | some flags => rw [Option.map_some, mailFlagsDup_eq]

theorem Held.flags_ne (held : Held store list map) (indx : UInt32) :
    indx ∈ list.map Mailmessage.msgIndex ↔ map indx ≠ none := by
  rw [held.stored]
  cases found : (list.map Mailmessage.msgIndex).idxOf? indx with
  | none => simpa using List.idxOf?_eq_none_iff.mp found
  | some position =>
      obtain ⟨inside, _, here⟩ := position_bounded held found
      have flagged := held.flagged _ (List.getElem_mem inside)
      refine ⟨fun _ => ?_, fun _ => List.mem_of_getElem? here⟩
      rwa [Option.bind_some, List.getElem?_eq_getElem inside, Option.bind_some]

theorem Held.replace (held : Held store list map) {msg : Mailmessage} (flagged : msg.msgFlags ≠ none) {position : Nat}
    (found : (list.map Mailmessage.msgIndex).idxOf? msg.msgIndex = some position) :
    Held { flsTab := carraySet store.flsTab (UInt32.ofNat position) msg
           flsHash := (chashSet store.flsHash (uintDatum msg.msgIndex) (uintDatum (UInt32.ofNat position))).2 }
      (list.set position msg) (Function.update map msg.msgIndex msg.msgFlags) := by
  obtain ⟨inside, exact, here⟩ := position_bounded held found
  obtain ⟨hashed, holds, positions⟩ := held.hash
  have indices : (list.set position msg).map Mailmessage.msgIndex = list.map Mailmessage.msgIndex := by
    obtain ⟨bound, same⟩ := List.getElem?_eq_some_iff.mp here
    rw [List.map_set, ← same, List.set_getElem_self]
  refine ⟨⟨held.valid.fits, held.valid.nonempty, ?_⟩, held.capacity, ?_, indices ▸ held.distinct, ?_, ?_, ?_⟩
  · exact (List.length_set).trans held.valid.allocated
  · change (store.flsTab.array.set (UInt32.ofNat position).toNat (some msg)).take store.flsTab.len.toNat = _
    rw [List.take_set, exact, List.map_set]
    exact congrArg (fun cells => cells.set position (some msg)) held.messages
  · refine ⟨_, holds.set _ _, ?_⟩
    intro indx
    rw [indices]
    by_cases same : indx = msg.msgIndex
    · subst same
      rw [Function.update_self, found]
      rfl
    · rw [Function.update_of_ne (fun key => same (uintDatum_injective key)), positions]
  · intro indx
    rw [indices]
    by_cases same : indx = msg.msgIndex
    · subst same
      rw [Function.update_self, found, Option.bind_some, List.getElem?_set_self inside, Option.bind_some]
    · rw [Function.update_of_ne same, held.stored]
      cases other : (list.map Mailmessage.msgIndex).idxOf? indx with
      | none => rfl
      | some position' =>
          obtain ⟨_, _, there⟩ := position_bounded held other
          have differs : position ≠ position' := by
            rintro rfl
            exact same (Option.some.inj (there.symm.trans here))
          rw [Option.bind_some, Option.bind_some, List.getElem?_set_ne differs]
  · intro other member
    rcases List.mem_or_eq_of_mem_set member with old | rfl
    · exact held.flagged other old
    · exact flagged

theorem idxOf?_append (front back : List UInt32) (element : UInt32) :
    (front ++ back).idxOf? element = (front.idxOf? element).or ((back.idxOf? element).map (· + front.length)) :=
  List.findIdx?_append

theorem Held.append (held : Held store list map) {msg : Mailmessage} (flagged : msg.msgFlags ≠ none)
    (fresh : (list.map Mailmessage.msgIndex).idxOf? msg.msgIndex = none) {tab : Carray Mailmessage} (valid : tab.Valid)
    (capacity : ∃ k, tab.max.toNat = 2 ^ k) (grown : tab.contents = list.map some ++ [none]) :
    Held { flsTab := carraySet tab (tab.len - 1) msg
           flsHash := (chashSet store.flsHash (uintDatum msg.msgIndex) (uintDatum (tab.len - 1))).2 }
      (list ++ [msg]) (Function.update map msg.msgIndex msg.msgFlags) := by
  obtain ⟨hashed, holds, positions⟩ := held.hash
  have length : tab.len.toNat = list.length + 1 := by
    rw [← valid.contents_length, grown, List.length_append, List.length_map]
    rfl
  have one : (1 : UInt32).toNat = 1 := rfl
  have last : (tab.len - 1).toNat = list.length := by
    rw [UInt32.toNat_sub_of_le _ _ (UInt32.le_iff_toNat_le.mpr (by omega)), one]
    omega
  have lastOf : UInt32.ofNat list.length = tab.len - 1 := by rw [← last, UInt32.ofNat_toNat]
  have notMember : msg.msgIndex ∉ list.map Mailmessage.msgIndex := List.idxOf?_eq_none_iff.mp fresh
  have indices : (list ++ [msg]).map Mailmessage.msgIndex = list.map Mailmessage.msgIndex ++ [msg.msgIndex] := by simp
  have position : ((list ++ [msg]).map Mailmessage.msgIndex).idxOf? msg.msgIndex = some list.length := by
    rw [indices, idxOf?_append, fresh]
    simp
  have others : ∀ indx, indx ≠ msg.msgIndex → ((list ++ [msg]).map Mailmessage.msgIndex).idxOf? indx =
      (list.map Mailmessage.msgIndex).idxOf? indx := by
    intro indx differs
    rw [indices, idxOf?_append]
    simp [differs.symm]
  refine ⟨⟨valid.fits, valid.nonempty, (List.length_set).trans valid.allocated⟩, capacity, ?_, ?_, ?_, ?_, ?_⟩
  · change (tab.array.set (tab.len - 1).toNat (some msg)).take tab.len.toNat = _
    rw [List.take_set, last]
    change tab.contents.set list.length (some msg) = _
    rw [grown, List.set_append_right _ _ (by simp), List.length_map, Nat.sub_self]
    simp
  · rw [indices, List.nodup_append]
    refine ⟨held.distinct, List.nodup_singleton _, ?_⟩
    rintro indx member other isLast rfl
    rw [List.mem_singleton.mp isLast] at member
    exact notMember member
  · refine ⟨_, holds.set _ _, ?_⟩
    intro indx
    by_cases same : indx = msg.msgIndex
    · subst same
      rw [Function.update_self, position, Option.map_some, lastOf]
    · rw [Function.update_of_ne (fun key => same (uintDatum_injective key)), positions, others indx same]
  · intro indx
    by_cases same : indx = msg.msgIndex
    · subst same
      rw [Function.update_self, position, Option.bind_some, List.getElem?_concat_length, Option.bind_some]
    · rw [Function.update_of_ne same, held.stored, others indx same]
      cases other : (list.map Mailmessage.msgIndex).idxOf? indx with
      | none => rfl
      | some position' =>
          obtain ⟨inside, _, _⟩ := position_bounded held other
          rw [Option.bind_some, Option.bind_some, List.getElem?_append_left inside]
  · intro other member
    rcases List.mem_append.mp member with old | new
    · exact held.flagged other old
    · rw [List.mem_singleton.mp new]
      exact flagged

theorem delete_all {hash : Chash} {hashed : Chash.Map} (holds : Chash.Holds hash hashed) (messages : List Mailmessage) :
    ∃ left, Chash.Holds ((messages.map some).foldl
        (fun hash msg => match msg with
          | some msg => (chashDelete hash (uintDatum msg.msgIndex)).2
          | none => hash) hash) left ∧
      ∀ indx, left (uintDatum indx) = if indx ∈ messages.map Mailmessage.msgIndex then none else hashed (uintDatum indx) := by
  induction messages generalizing hash hashed with
  | nil => exact ⟨hashed, holds, fun indx => by simp⟩
  | cons msg rest ih =>
      obtain ⟨left, leftHolds, others⟩ := ih (holds.delete (uintDatum msg.msgIndex))
      refine ⟨left, leftHolds, ?_⟩
      intro indx
      rw [others indx]
      by_cases same : indx = msg.msgIndex
      · subst same
        simp
      · have differs : uintDatum indx ≠ uintDatum msg.msgIndex := fun key => same (uintDatum_injective key)
        simp [same, Function.update_of_ne differs]

theorem Held.clear (held : Held store list map) : Held (mailFlagsStoreClear store) [] fun _ => none := by
  obtain ⟨hashed, holds, positions⟩ := held.hash
  obtain ⟨left, leftHolds, others⟩ := delete_all holds list
  have emptied := held.valid.setSize_outcome 0 none
  rw [mailFlagsStoreClear, MailFlagsStore.messages, ← contents, held.messages]
  cases outcome : carraySetSize store.flsTab 0 none with
  | mk done tab =>
      rw [outcome] at emptied
      cases emptied with
      | failed full => exact absurd (Or.inl (UInt32.le_iff_toNat_le.mpr (Nat.zero_le _))) full
      | done room valid same capacity =>
          refine ⟨valid, ?_, ?_, List.nodup_nil, ⟨left, leftHolds, ?_⟩, fun _ => rfl, fun msg member => absurd member List.not_mem_nil⟩
          · obtain ⟨k, power⟩ := held.capacity
            obtain ⟨k', doubled⟩ := capacity
            exact ⟨k + k', by rw [doubled, power, ← Nat.pow_add]⟩
          · rw [same]
            simp [resized]
          · intro indx
            rw [others indx, positions]
            by_cases member : indx ∈ list.map Mailmessage.msgIndex
            · rw [if_pos member]
              rfl
            · rw [if_neg member, List.idxOf?_eq_none_iff.mpr member]
              rfl

def InOrder (messages : List (Option Mailmessage)) : Prop :=
  messages.Pairwise fun msg1 msg2 =>
    ∀ one two, msg1 = some one → msg2 = some two → one.msgIndex < two.msgIndex ∧ two.msgIndex.toNat - one.msgIndex.toNat < 2 ^ 31

theorem msgIndexCompare_ascending {one two : Mailmessage} (ascending : one.msgIndex < two.msgIndex)
    (close : two.msgIndex.toNat - one.msgIndex.toNat < 2 ^ 31) : msgIndexCompare (some one) (some two) ≤ 0 := by
  have ascendingNat := UInt32.lt_iff_toNat_lt.mp ascending
  have bounded := two.msgIndex.toNat_lt
  have difference : (one.msgIndex - two.msgIndex).toNat = 2 ^ 32 - (two.msgIndex.toNat - one.msgIndex.toNat) := by
    rw [UInt32.toNat_sub]
    omega
  rw [msgIndexCompare, Int32.le_iff_toInt_le]
  change (one.msgIndex - two.msgIndex).toBitVec.toInt ≤ 0
  rw [BitVec.toInt_eq_toNat_bmod, Int.bmod_def, UInt32.toNat_toBitVec, difference]
  omega

theorem Held.sort (held : Held store list map) (inOrder : InOrder store.messages) : mailFlagsStoreSort store = store := by
  have sorted : store.messages.insertionSort (fun msg1 msg2 => msgIndexCompare msg1 msg2 ≤ 0) = store.messages := by
    refine List.Pairwise.insertionSort_eq (inOrder.imp_of_mem ?_)
    intro msg1 msg2 in1 in2 order
    rw [MailFlagsStore.messages, ← contents, held.messages] at in1 in2
    obtain ⟨one, _, rfl⟩ := List.mem_map.mp in1
    obtain ⟨two, _, rfl⟩ := List.mem_map.mp in2
    obtain ⟨ascending, close⟩ := order one two rfl rfl
    exact msgIndexCompare_ascending ascending close
  rw [mailFlagsStoreSort, sorted, MailFlagsStore.messages, List.take_append_drop]

/-- `slots` is what an allocation of the table would give. -/
inductive StoreOperation where
  | set (msg : Mailmessage) (slots : Option (Slots Mailmessage))
  | get (indx : UInt32)
  | sort
  | clear

/-- The store beside the flags that were set most recently, since the last clear, for each index. -/
structure Tracked where
  store : MailFlagsStore
  map : UInt32 → Option MailFlags

namespace StoreOperation

/-- A message without flags sets none, and neither does a call that fails. -/
def step (tracked : Tracked) : StoreOperation → Tracked
  | set msg slots =>
      match mailFlagsStoreSet tracked.store msg slots with
      | (.noError, store) =>
          { store := store
            map := if msg.msgFlags = none then tracked.map else Function.update tracked.map msg.msgIndex msg.msgFlags }
      | (.memory, store) => { store := store, map := tracked.map }
  | get _ => tracked
  | sort => { store := mailFlagsStoreSort tracked.store, map := tracked.map }
  | clear => { store := mailFlagsStoreClear tracked.store, map := fun _ => none }

/-- The table is sorted only where it is in order already. -/
def Safe (tracked : Tracked) : StoreOperation → Prop
  | sort => InOrder tracked.store.messages
  | _ => True

end StoreOperation

/-- mail_flags_store_get gives the flags of the map, and the table has one message for each of them. -/
structure Kept (tracked : Tracked) : Prop where
  get (indx : UInt32) : mailFlagsStoreGet tracked.store indx = tracked.map indx
  entries : ∃ messages : List Mailmessage, tracked.store.messages = messages.map some ∧
    (messages.map Mailmessage.msgIndex).Nodup ∧ ∀ indx, indx ∈ messages.map Mailmessage.msgIndex ↔ tracked.map indx ≠ none

def Ascending (messages : List (Option Mailmessage)) : Prop :=
  messages.Pairwise fun msg1 msg2 => ∀ one two, msg1 = some one → msg2 = some two → one.msgIndex < two.msgIndex

def StoreOperation.Good (tracked : Tracked) (operation : StoreOperation) : Prop :=
  Kept (operation.step tracked) ∧ (operation = .sort → Ascending (operation.step tracked).store.messages)

theorem Held.kept {tracked : Tracked} (held : Held tracked.store list tracked.map) : Kept tracked :=
  ⟨held.get, list, held.messages, held.distinct, held.flags_ne⟩

theorem Held.set {tracked : Tracked} (held : Held tracked.store list tracked.map) (msg : Mailmessage)
    (slots : Option (Slots Mailmessage)) :
    ∃ after, Held (StoreOperation.step tracked (.set msg slots)).store after (StoreOperation.step tracked (.set msg slots)).map := by
  have built := mailmessageBuild_eq msg
  cases flags : msg.msgFlags with
  | none => exact ⟨list, by simpa only [StoreOperation.step, mailFlagsStoreSet, flags, ↓reduceIte] using held⟩
  | some some_ =>
      have flagged : msg.msgFlags ≠ none := by rw [flags]; exact Option.some_ne_none _
      obtain ⟨hashed, holds, positions⟩ := held.hash
      have got : chashGet tracked.store.flsHash (uintDatum msg.msgIndex) =
          ((list.map Mailmessage.msgIndex).idxOf? msg.msgIndex).map fun position => uintDatum (UInt32.ofNat position) := by
        rw [holds.get, positions]
      cases found : (list.map Mailmessage.msgIndex).idxOf? msg.msgIndex with
      | some position =>
          rw [found, Option.map_some] at got
          refine ⟨list.set position msg, ?_⟩
          simpa only [StoreOperation.step, mailFlagsStoreSet, flags, built, got, uintOf_uintDatum, reduceCtorEq, ↓reduceIte]
            using held.replace flagged found
      | none =>
          rw [found, Option.map_none] at got
          have sized := held.valid.setSize_outcome (tracked.store.flsTab.len + 1) slots
          have short := held.short
          have next : (tracked.store.flsTab.len + 1).toNat = tracked.store.flsTab.len.toNat + 1 := by
            rw [UInt32.toNat_add, show (1 : UInt32).toNat = 1 from rfl]
            omega
          cases outcome : carraySetSize tracked.store.flsTab (tracked.store.flsTab.len + 1) slots with
          | mk done tab =>
              rw [outcome] at sized
              cases sized with
              | failed full =>
                  refine ⟨list, ?_⟩
                  simpa only [StoreOperation.step, mailFlagsStoreSet, flags, built, got, outcome] using held
              | done room valid same capacity =>
                  have grown : tab.contents = list.map some ++ [none] := by
                    rw [same, held.messages, resized, next, ← held.length, List.take_of_length_le (by simp), List.length_map,
                      Nat.add_sub_cancel_left]
                    rfl
                  have power : ∃ k, tab.max.toNat = 2 ^ k := by
                    obtain ⟨k, power⟩ := held.capacity
                    obtain ⟨k', doubled⟩ := capacity
                    exact ⟨k + k', by rw [doubled, power, ← Nat.pow_add]⟩
                  refine ⟨list ++ [msg], ?_⟩
                  simpa only [StoreOperation.step, mailFlagsStoreSet, flags, built, got, outcome, reduceCtorEq, ↓reduceIte]
                    using held.append flagged found valid power grown

theorem Held.step {tracked : Tracked} (held : Held tracked.store list tracked.map) (operation : StoreOperation)
    (safe : operation.Safe tracked) :
    ∃ after, Held (operation.step tracked).store after (operation.step tracked).map := by
  cases operation with
  | set msg slots => exact held.set msg slots
  | get indx => exact ⟨list, held⟩
  | sort => exact ⟨list, by simpa only [StoreOperation.step, held.sort safe] using held⟩
  | clear => exact ⟨[], held.clear⟩

theorem mailFlagsStoreNew_held {slots : Option (Slots Mailmessage)} (created : mailFlagsStoreNew slots = some store) :
    Held store [] fun _ => none := by
  obtain ⟨tab, made, rfl⟩ := Option.map_eq_some_iff.mp created
  obtain ⟨valid, empty⟩ := carrayNew_valid made
  refine ⟨valid, ?_, empty, List.nodup_nil, ⟨_, chashNew_holds 128, fun _ => rfl⟩, fun _ => rfl,
    fun msg member => absurd member List.not_mem_nil⟩
  rw [carrayNew] at made
  simp only [↓reduceIte, not_sizeMulOverflows, Bool.false_eq_true] at made
  obtain ⟨stray, _, rfl⟩ := Option.map_eq_some_iff.mp made
  exact ⟨7, rfl⟩

/-- In every run that sorts only a table that is in order, every state that is reached gives the flags that were set. -/
theorem flagsStoreRun_kept {slots : Option (Slots Mailmessage)} (created : mailFlagsStoreNew slots = some store)
    (operations : List StoreOperation)
    (safe : EachStep StoreOperation.step StoreOperation.Safe ⟨store, fun _ => none⟩ operations) :
    EachStep StoreOperation.step StoreOperation.Good ⟨store, fun _ => none⟩ operations := by
  refine @EachStep.of_safe _ _ _ _ _ (fun tracked => ∃ list, Held tracked.store list tracked.map) ?_ ?_ _ _
    ⟨[], mailFlagsStoreNew_held created⟩ safe
  · rintro tracked operation ⟨list, held⟩ safe
    obtain ⟨after, afterHeld⟩ := held.step operation safe
    refine ⟨afterHeld.kept, ?_⟩
    rintro rfl
    simp only [StoreOperation.step, held.sort safe]
    exact List.Pairwise.imp (fun order one two isOne isTwo => (order one two isOne isTwo).1) safe
  · rintro tracked operation ⟨list, held⟩ safe
    exact held.step operation safe

def flaggedMessage (indx flags : UInt32) : Mailmessage :=
  { msgIndex := indx, msgUid := none, msgCached := false, msgSize := 0, msgFlags := some ⟨flags, []⟩ }

theorem flagsStoreRun_kept_replaced :
    ∃ store, mailFlagsStoreNew (some fun _ => none) = some store ∧
      EachStep StoreOperation.step StoreOperation.Good ⟨store, fun _ => none⟩
        [.set (flaggedMessage 2 7) none, .set (flaggedMessage 2 8) none, .sort, .clear, .get 2] := by
  refine ⟨_, rfl, @flagsStoreRun_kept _ (some fun _ => none) rfl _ ⟨trivial, trivial, ?_, trivial, trivial, trivial⟩⟩
  exact List.pairwise_singleton _ _

/-- After messages 2 and 1 were set and the table was sorted, the flags of 1 are those that were set for 2; and indices
that are too far apart are sorted the wrong way round. -/
theorem flagsStoreRun_sorted :
    ∃ store, mailFlagsStoreNew (some fun _ => none) = some store ∧
      ¬EachStep StoreOperation.step StoreOperation.Good ⟨store, fun _ => none⟩
        [.set (flaggedMessage 2 7) none, .set (flaggedMessage 1 8) none, .sort] ∧
      ¬EachStep StoreOperation.step StoreOperation.Good ⟨store, fun _ => none⟩
        [.set (flaggedMessage 0 7) none, .set (flaggedMessage 0xffffffff 8) none, .sort] := by
  refine ⟨_, rfl, ?_, ?_⟩
  · rintro ⟨_, _, ⟨kept, _⟩, _⟩
    exact absurd (kept.get 1) (by decide)
  · rintro ⟨_, _, ⟨_, sorted⟩, _⟩
    have ascending : (flaggedMessage 0xffffffff 8).msgIndex < (flaggedMessage 0 7).msgIndex :=
      (List.pairwise_pair.mp (sorted rfl)) _ _ rfl rfl
    exact absurd ascending (by decide)

end Etpan.Cache
