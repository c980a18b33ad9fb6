import Etpan.Mbox.Placed
import Etpan.Mbox.Sizes

namespace Etpan.Mbox

open Etpan.Data

/-! The size that is counted for an expunged file, and the pointer that writes it. -/

/-- A message that is kept is written; the file has `size` octets. -/
def MailmboxFolder.expungeMessageAt (folder : MailmboxFolder) (size : Nat) (dest : Cursor UInt8) (info : MailmboxMsgInfo) : Cursor UInt8 :=
  let dest := dest.put (folder.slice info.msgStart (info.msgHeadersLen + info.msgStartLen))
  let dest :=
    if folder.addsUid info then
      let dest := dest.put (uidHeader ++ [SP])
      dest.print 0 (size - dest.offset) (decimal info.msgUid.toNat ++ [LF])
    else dest
  dest.put (folder.slice (info.msgHeaders + info.msgHeadersLen) (info.msgSize - (info.msgStartLen + info.msgHeadersLen) + info.msgPadding))

def MailmboxFolder.reservedSize (folder : MailmboxFolder) : Nat := (folder.kept.map folder.expungedSize).sum

def MailmboxFolder.expungedAt (folder : MailmboxFolder) : Cursor UInt8 :=
  folder.kept.foldl (folder.expungeMessageAt folder.reservedSize) .start

/-- The file is as large as was counted, nothing is written behind it, and all that is in it are the messages with
their UID headers. -/
structure MailmboxFolder.ExpungeExact (folder : MailmboxFolder) : Prop where
  advance : folder.expungedAt.offset = folder.reservedSize
  within : folder.expungedAt.Within folder.reservedSize
  contents : folder.expungedAt.result (List.replicate folder.reservedSize 0) = folder.pieces folder.kept

/-- The last message of a list has something behind its header fields if it gets a UID header. -/
def MailmboxFolder.UidsFollowed (folder : MailmboxFolder) (infos : List MailmboxMsgInfo) : Prop :=
  ∀ before info, infos = before ++ [info] → folder.addsUid info = true → folder.tailOf info.toMsgPlace ≠ []

section Message

variable {folder : MailmboxFolder} {info : MailmboxMsgInfo} {size : Nat} {dest : Cursor UInt8} {memory text : List UInt8}

theorem PlaceFits.lengths (fits : PlaceFits folder.mbMapping.length info.toMsgPlace) :
    (folder.headOf info.toMsgPlace).length = info.msgHeadersLen + info.msgStartLen ∧
      (folder.tailOf info.toMsgPlace).length = info.msgSize - (info.msgStartLen + info.msgHeadersLen) + info.msgPadding := by
  have headers := fits.headers
  have front := fits.front
  have behind := fits.behind
  rw [MailmboxFolder.headOf, MailmboxFolder.tailOf, MailmboxFolder.slice, MailmboxFolder.slice, List.length_take, List.length_take,
    List.length_drop, List.length_drop]
  omega

theorem PlaceFits.expungedSize (fits : PlaceFits folder.mbMapping.length info.toMsgPlace) :
    folder.expungedSize info = (folder.piece info).length ∧ 0 < folder.expungedSize info := by
  have front := fits.front
  have nonempty := fits.nonempty
  obtain ⟨head, tail⟩ := fits.lengths
  rw [MailmboxFolder.expungedSize, MailmboxFolder.piece, keptPiece, List.length_append, List.length_append, head, tail]
  cases folder.addsUid info with
  | false =>
      simp only [Bool.false_eq_true, if_false, Option.elim_none, List.length_nil]
      omega
  | true =>
      simp only [if_true, Option.elim_some, uidLine_length, decimal_length]
      omega

theorem expungeMessageAt_offset (folder : MailmboxFolder) (size : Nat) (dest : Cursor UInt8) (info : MailmboxMsgInfo) :
    (folder.expungeMessageAt size dest info).offset = dest.offset + (folder.piece info).length := by
  rw [MailmboxFolder.expungeMessageAt, MailmboxFolder.piece, keptPiece, MailmboxFolder.headOf, MailmboxFolder.tailOf]
  cases folder.addsUid info with
  | false =>
      simp only [Bool.false_eq_true, if_false, Cursor.put_offset, Option.elim_none, List.nil_append, List.length_append]
      omega
  | true =>
      simp only [if_true, Cursor.put_offset, Cursor.print_offset, Option.elim_some, List.length_append, List.length_singleton, uidLine_length]
      omega

theorem expungeMessageAt_holds (holds : dest.Holds memory text) (isSize : memory.length = size) (fits : text.length + (folder.piece info).length ≤ size)
    (followed : folder.addsUid info = true → text.length + (folder.piece info).length < size ∨ folder.tailOf info.toMsgPlace ≠ []) :
    (folder.expungeMessageAt size dest info).Holds memory (text ++ folder.piece info) := by
  rw [MailmboxFolder.piece, keptPiece] at fits followed ⊢
  cases adds : folder.addsUid info with
  | false =>
      simp only [adds, Bool.false_eq_true, if_false, Option.elim_none, List.nil_append, List.length_append] at fits
      simp only [MailmboxFolder.expungeMessageAt, adds, Bool.false_eq_true, if_false, Option.elim_none, List.nil_append]
      rw [← List.append_assoc]
      refine (holds.put ?_).put ?_
      · change text.length + (folder.headOf info.toMsgPlace).length ≤ memory.length
        omega
      · change (text ++ folder.headOf info.toMsgPlace).length + (folder.tailOf info.toMsgPlace).length ≤ memory.length
        rw [List.length_append]
        omega
  | true =>
      have room := followed adds
      simp only [adds, if_true, Option.elim_some, List.length_append, uidLine_length] at fits room
      have beyond : text.length + ((folder.headOf info.toMsgPlace).length + (uidHeader.length + (decimal info.msgUid.toNat).length + 2)) < size := by
        rcases room with shorter | some
        · omega
        · have positive := List.length_pos_iff.mpr some
          omega
      simp only [MailmboxFolder.expungeMessageAt, adds, if_true, Option.elim_some]
      have headed := holds.put (show text.length + (folder.headOf info.toMsgPlace).length ≤ memory.length by omega)
      have named : ((dest.put (folder.headOf info.toMsgPlace)).put (uidHeader ++ [SP])).Holds memory
          (text ++ folder.headOf info.toMsgPlace ++ (uidHeader ++ [SP])) := by
        refine headed.put ?_
        simp only [List.length_append, List.length_singleton]
        omega
      have length := named.length
      simp only [List.length_append, List.length_singleton] at length
      have printed := @Cursor.Holds.print _ _ _ 0 (size - ((dest.put (folder.headOf info.toMsgPlace)).put (uidHeader ++ [SP])).offset) _ named
        (decimal info.msgUid.toNat ++ [LF])
        (by simp only [List.length_append, List.length_singleton]; omega) (by simp only [List.length_append, List.length_singleton]; omega)
      have all := @Cursor.Holds.put _ _ (folder.tailOf info.toMsgPlace) _ _ printed (by simp only [List.length_append, List.length_singleton]; omega)
      have split : text ++ (folder.headOf info.toMsgPlace ++ (uidLine (decimal info.msgUid.toNat) ++ folder.tailOf info.toMsgPlace)) =
          text ++ folder.headOf info.toMsgPlace ++ (uidHeader ++ [SP]) ++ (decimal info.msgUid.toNat ++ [LF]) ++ folder.tailOf info.toMsgPlace := by
        simp only [uidLine, List.append_assoc, List.cons_append, List.nil_append]
      rw [split]
      exact all

theorem expungeMessageAt_within (within : dest.Within size) (fits : dest.offset + (folder.piece info).length ≤ size) :
    (folder.expungeMessageAt size dest info).Within size := by
  rw [MailmboxFolder.piece, keptPiece] at fits
  have headed : dest.offset + (folder.headOf info.toMsgPlace).length ≤ size := by
    rw [List.length_append] at fits
    omega
  cases adds : folder.addsUid info with
  | false =>
      simp only [adds, Bool.false_eq_true, if_false, Option.elim_none, List.nil_append, List.length_append] at fits
      simp only [MailmboxFolder.expungeMessageAt, adds, Bool.false_eq_true, if_false]
      refine (within.put headed).put ?_
      change dest.offset + (folder.headOf info.toMsgPlace).length + (folder.tailOf info.toMsgPlace).length ≤ size
      omega
  | true =>
      simp only [adds, if_true, Option.elim_some, List.length_append, uidLine_length] at fits
      simp only [MailmboxFolder.expungeMessageAt, adds, if_true]
      have named : ((dest.put (folder.headOf info.toMsgPlace)).put (uidHeader ++ [SP])).Within size := by
        refine (within.put headed).put ?_
        simp only [Cursor.put_offset, List.length_append, List.length_singleton]
        omega
      have offset : ((dest.put (folder.headOf info.toMsgPlace)).put (uidHeader ++ [SP])).offset =
          dest.offset + (folder.headOf info.toMsgPlace).length + (uidHeader.length + 1) := by
        simp only [Cursor.put_offset, List.length_append, List.length_singleton]
      have printed : (((dest.put (folder.headOf info.toMsgPlace)).put (uidHeader ++ [SP])).print 0
          (size - ((dest.put (folder.headOf info.toMsgPlace)).put (uidHeader ++ [SP])).offset) (decimal info.msgUid.toNat ++ [LF])).Within size := by
        refine named.print ?_
        rw [offset]
        omega
      refine printed.put ?_
      change ((dest.put (folder.headOf info.toMsgPlace)).put (uidHeader ++ [SP])).offset + (decimal info.msgUid.toNat ++ [LF]).length +
        (folder.tailOf info.toMsgPlace).length ≤ size
      rw [offset, List.length_append, List.length_singleton]
      omega

end Message

section Messages

variable {folder : MailmboxFolder} {size : Nat} {memory text : List UInt8}

theorem expungeMessagesAt_holds {infos : List MailmboxMsgInfo} {dest : Cursor UInt8}
    (places : ∀ info ∈ infos, 0 < (folder.piece info).length) (holds : dest.Holds memory text) (isSize : memory.length = size)
    (fits : text.length + (folder.pieces infos).length ≤ size)
    (followed : text.length + (folder.pieces infos).length < size ∨ folder.UidsFollowed infos) :
    (infos.foldl (folder.expungeMessageAt size) dest).Holds memory (text ++ folder.pieces infos) := by
  induction infos generalizing dest text with
  | nil =>
      rw [MailmboxFolder.pieces, List.map_nil, List.flatten_nil, List.append_nil]
      exact holds
  | cons info infos ih =>
      have pieces_eq : folder.pieces (info :: infos) = folder.piece info ++ folder.pieces infos := rfl
      rw [pieces_eq, List.length_append] at fits followed
      have held : (folder.expungeMessageAt size dest info).Holds memory (text ++ folder.piece info) := by
        refine expungeMessageAt_holds holds isSize (by omega) fun adds => ?_
        rcases followed with shorter | followed
        · exact .inl (by omega)
        · rcases infos with _ | ⟨next, infos⟩
          · exact .inr (followed [] info rfl adds)
          · have positive := places next (List.mem_cons_of_mem _ List.mem_cons_self)
            have nextPieces : (folder.pieces (next :: infos)).length = (folder.piece next).length + (folder.pieces infos).length :=
              List.length_append
            exact .inl (by omega)
      rw [List.foldl_cons, pieces_eq, ← List.append_assoc]
      refine ih (fun other member => places other (List.mem_cons_of_mem _ member)) held ?_ ?_
      · rw [List.length_append]
        omega
      · rw [List.length_append]
        rcases followed with shorter | followed
        · exact .inl (by omega)
        · exact .inr fun before last split => followed (info :: before) last (congrArg (info :: ·) split)

theorem expungeMessagesAt_within {infos : List MailmboxMsgInfo} {dest : Cursor UInt8} (within : dest.Within size)
    (fits : dest.offset + (folder.pieces infos).length ≤ size) :
    (infos.foldl (folder.expungeMessageAt size) dest).Within size ∧
      (infos.foldl (folder.expungeMessageAt size) dest).offset = dest.offset + (folder.pieces infos).length := by
  induction infos generalizing dest with
  | nil => exact ⟨within, rfl⟩
  | cons info infos ih =>
      have pieces_eq : folder.pieces (info :: infos) = folder.piece info ++ folder.pieces infos := rfl
      rw [pieces_eq, List.length_append] at fits ⊢
      have offset := expungeMessageAt_offset folder size dest info
      have first : (folder.expungeMessageAt size dest info).Within size := expungeMessageAt_within within (by omega)
      obtain ⟨later, offset'⟩ := ih first (by rw [offset]; omega)
      refine ⟨later, ?_⟩
      rw [List.foldl_cons, offset', offset]
      omega

end Messages

theorem expungeMessageAt_cut {folder : MailmboxFolder} {info : MailmboxMsgInfo} {dest : Cursor UInt8} {memory text : List UInt8}
    (holds : dest.Holds memory text) (fits : text.length + (folder.piece info).length = memory.length) (adds : folder.addsUid info = true)
    (nothing : folder.tailOf info.toMsgPlace = []) :
    (folder.expungeMessageAt memory.length dest info).result memory ≠ text ++ folder.piece info := by
  rw [MailmboxFolder.piece, keptPiece, adds, nothing] at fits ⊢
  simp only [if_true, Option.elim_some, List.append_nil, List.length_append, uidLine_length] at fits ⊢
  have headed := holds.put (show text.length + (folder.headOf info.toMsgPlace).length ≤ memory.length by omega)
  have named : ((dest.put (folder.headOf info.toMsgPlace)).put (uidHeader ++ [SP])).Holds memory
      (text ++ folder.headOf info.toMsgPlace ++ (uidHeader ++ [SP])) := by
    refine headed.put ?_
    simp only [List.length_append, List.length_singleton]
    omega
  have length := named.length
  simp only [List.length_append, List.length_singleton] at length
  have full : (decimal info.msgUid.toNat ++ [LF]).length =
      memory.length - ((dest.put (folder.headOf info.toMsgPlace)).put (uidHeader ++ [SP])).offset := by
    rw [List.length_append, List.length_singleton]
    omega
  have some : decimal info.msgUid.toNat ++ [LF] ≠ [] := by simp
  have size : (text ++ folder.headOf info.toMsgPlace ++ (uidHeader ++ [SP])).length + (decimal info.msgUid.toNat ++ [LF]).length = memory.length := by
    simp only [List.length_append, List.length_singleton]
    omega
  have cut := @Cursor.Holds.cut _ _ _ 0 _ _ named _ full some size
  rw [List.dropLast_concat] at cut
  have written : (folder.expungeMessageAt memory.length dest info).result memory =
      text ++ folder.headOf info.toMsgPlace ++ (uidHeader ++ [SP]) ++ (decimal info.msgUid.toNat ++ [0]) := by
    have behind : folder.slice (info.msgHeaders + info.msgHeadersLen)
        (info.msgSize - (info.msgStartLen + info.msgHeadersLen) + info.msgPadding) = [] := nothing
    simp only [MailmboxFolder.expungeMessageAt, adds, if_true, behind]
    rw [Cursor.put_nil_result]
    exact cut
  intro same
  have ends := congrArg List.getLast? (written.symm.trans same)
  have split : text ++ (folder.headOf info.toMsgPlace ++ uidLine (decimal info.msgUid.toNat)) =
      text ++ folder.headOf info.toMsgPlace ++ (uidHeader ++ [SP]) ++ decimal info.msgUid.toNat ++ [LF] := by
    simp only [uidLine, List.append_assoc, List.cons_append, List.nil_append]
  rw [split, ← List.append_assoc, List.getLast?_concat, List.getLast?_concat] at ends
  cases ends

theorem expungeExact_iff {folder : MailmboxFolder} (placed : folder.Placed) : folder.ExpungeExact ↔ folder.UidsFollowed folder.kept := by
  have fits : ∀ info ∈ folder.kept, PlaceFits folder.mbMapping.length info.toMsgPlace := by
    intro info member
    obtain ⟨address, listed, rfl⟩ := List.mem_map.mp (List.mem_of_mem_filter member)
    exact placed address listed
  have positive : ∀ info ∈ folder.kept, 0 < (folder.piece info).length := by
    intro info member
    obtain ⟨same, positive⟩ := (fits info member).expungedSize
    exact same ▸ positive
  have sizes : folder.kept.map folder.expungedSize = folder.kept.map fun info => (folder.piece info).length :=
    List.map_congr_left fun info member => (fits info member).expungedSize.1
  have size_eq : folder.reservedSize = (folder.pieces folder.kept).length := by
    rw [MailmboxFolder.reservedSize, sizes, MailmboxFolder.pieces, List.length_flatten, List.map_map]
    rfl
  have zeros : (List.replicate folder.reservedSize (0 : UInt8)).length = folder.reservedSize := List.length_replicate
  have start := Cursor.holds_start (List.replicate folder.reservedSize (0 : UInt8))
  constructor
  · intro exact before last split adds nothing
    have pieces_eq : folder.pieces folder.kept = folder.pieces before ++ folder.piece last := by
      rw [split, MailmboxFolder.pieces, List.map_append, List.flatten_append, List.map_singleton, List.flatten_singleton]
      rfl
    have lastPositive := positive last (split ▸ List.mem_append_right before List.mem_cons_self)
    have lengths := congrArg List.length pieces_eq
    rw [List.length_append] at lengths
    have held := @expungeMessagesAt_holds folder folder.reservedSize _ _ before _
      (fun info member => positive info (split ▸ List.mem_append_left _ member)) start zeros (by rw [List.length_nil]; omega)
      (.inl (by rw [List.length_nil]; omega))
    rw [List.nil_append] at held
    have cut := expungeMessageAt_cut held (by rw [zeros]; omega) adds nothing
    have contents := exact.contents
    rw [MailmboxFolder.expungedAt, split, List.foldl_append, List.foldl_cons, List.foldl_nil, ← split, pieces_eq] at contents
    rw [zeros] at cut
    exact cut contents
  · intro followed
    have offset : (Cursor.start : Cursor UInt8).offset = 0 := rfl
    obtain ⟨within, advance⟩ := @expungeMessagesAt_within folder folder.reservedSize folder.kept .start Cursor.within_start (by omega)
    have held := @expungeMessagesAt_holds folder folder.reservedSize _ _ folder.kept _ positive start zeros (by rw [List.length_nil]; omega)
      (.inr followed)
    rw [List.nil_append] at held
    refine ⟨?_, within, ?_⟩
    · rw [size_eq, ← Nat.zero_add (folder.pieces folder.kept).length]
      exact advance
    · have front := held.front
      rw [List.take_of_length_le (by rw [held.room, zeros, size_eq])] at front
      exact front

/-- A message is written in the octets that are counted for it exactly when it gets no UID header or the number of its
UID is counted right; and the file of a folder is written in the octets counted for it, whole, exactly when its last
UID header is not the end of it. -/
theorem mailmbox_sizes_exact (message : List UInt8) (uid : Option UInt32) {folder : MailmboxFolder} (reached : Reached folder) :
    (SizeExact message uid ↔ ∀ number ∈ uid, UidCounted number) ∧ (folder.ExpungeExact ↔ folder.UidsFollowed folder.kept) :=
  ⟨sizeExact_iff message uid, expungeExact_iff reached.placed⟩

theorem mailmbox_sizes_exact_two :
    (SizeExact [] (some 10) ↔ ∀ number ∈ some 10, UidCounted number) ∧ ((mailmboxInit twoMessages false false 0).ExpungeExact ↔
      (mailmboxInit twoMessages false false 0).UidsFollowed (mailmboxInit twoMessages false false 0).kept) :=
  mailmbox_sizes_exact [] (some 10) (.parsed _)

def headersOnlyInfo : MailmboxMsgInfo := { mailmboxMsgInfoNew ⟨0, 6, 6, 3, 9, 0, 9, 0⟩ 0 with msgUid := 1 }

/-- A UID of 32 bits is a negative number for `%i`, and the UID header at the end of a file loses its line end. -/
theorem mailmbox_sizes_differ :
    ¬ SizeExact [] (some 4294967295) ∧ ¬ (mailmboxInit headersOnly false false 0).ExpungeExact := by
  constructor
  · intro exact
    rcases (sizeExact_iff [] (some 4294967295)).mp exact 4294967295 rfl with small | ⟨-, counted⟩
    · exact absurd small (by decide)
    · exact absurd counted (by decide)
  · intro exact
    have kept : (mailmboxInit headersOnly false false 0).kept = [] ++ [headersOnlyInfo] := by decide +kernel
    have adds : (mailmboxInit headersOnly false false 0).addsUid headersOnlyInfo = true := by decide +kernel
    have followed := (expungeExact_iff (mailmboxParse_fits _)).mp exact [] headersOnlyInfo kept adds
    exact followed (by decide)

end Etpan.Mbox
