import Etpan.Mh.FolderTree

namespace Etpan.Mh

open Etpan.Data

/-! A folder that is taken out of the tree, with everything below it. -/

variable {s s' : Store} {ref sub : Nat} {folder subfolder : Folder}

/-- Some folders are freed: each of them was to be freed, or stood in the table of another
one that is. -/
structure Pruned (s s' : Store) (roots : Nat → Prop) : Prop where
  size : s'.size = s.size
  kept : ∀ ref, s'.folder ref = none ∨ s'.folder ref = s.folder ref
  reason : ∀ ref, s'.folder ref = none → s.folder ref ≠ none → roots ref ∨
    ∃ parent, s'.folder parent = none ∧ Listed s parent ref

theorem Pruned.refl (s : Store) (roots : Nat → Prop) : Pruned s s roots :=
  ⟨rfl, fun _ => Or.inr rfl, fun _ freed live => absurd freed live⟩

theorem Pruned.trans {roots roots' : Nat → Prop} {s'' : Store} (first : Pruned s s' roots) (second : Pruned s' s'' roots')
    (included : ∀ ref, roots' ref → roots ref) : Pruned s s'' roots := by
  have still : ∀ ref, s'.folder ref = none → s''.folder ref = none := by
    intro ref freed
    rcases second.kept ref with freed' | same
    · exact freed'
    · rw [same, freed]
  refine ⟨second.size.trans first.size, fun ref => ?_, fun ref freed live => ?_⟩
  · rcases second.kept ref with freed | same
    · exact Or.inl freed
    · rw [same]
      exact first.kept ref
  · rcases first.kept ref with freedFirst | same
    · rcases first.reason ref freedFirst live with isRoot | ⟨parent, parentFreed, listed⟩
      · exact Or.inl isRoot
      · exact Or.inr ⟨parent, still parent parentFreed, listed⟩
    · rcases second.reason ref freed (by rw [same]; exact live) with isRoot | ⟨parent, parentFreed, folder, parentLive, listed⟩
      · exact Or.inl (included ref isRoot)
      · have wasLive : s.folder parent = some folder := by
          rcases first.kept parent with gone | parentSame
          · rw [gone] at parentLive
            cases parentLive
          · rw [← parentSame, parentLive]
        exact Or.inr ⟨parent, parentFreed, folder, wasLive, listed⟩

theorem Pruned.mono {roots roots' : Nat → Prop} (pruned : Pruned s s' roots) (included : ∀ ref, roots ref → roots' ref) :
    Pruned s s' roots' :=
  ⟨pruned.size, pruned.kept, fun ref freed live => (pruned.reason ref freed live).imp_left (included ref)⟩

theorem foldl_pruned {free : Store → Nat → Store} (each : ∀ s ref, Pruned s (free s ref) (· = ref)) (tab : List (Option Nat)) (s : Store) :
    Pruned s (tab.foldl (fun s subfolder => subfolder.elim s (free s)) s) (fun ref => some ref ∈ tab) := by
  induction tab generalizing s with
  | nil => exact .refl s _
  | cons subfolder tab ih =>
      rw [List.foldl_cons]
      cases subfolder with
      | none => exact (ih s).mono fun ref member => List.mem_cons_of_mem _ member
      | some sub =>
          exact ((each s sub).mono fun ref isSub => by rw [isSub]; exact List.mem_cons_self).trans (ih _)
            fun ref member => List.mem_cons_of_mem _ member

theorem mailmhFolderFree_pruned (depth : Nat) (s : Store) (ref : Nat) : Pruned s (mailmhFolderFree depth s ref) (· = ref) := by
  induction depth generalizing s ref with
  | zero => exact .refl s _
  | succ depth ih =>
      rw [mailmhFolderFree]
      cases live : s.folder ref with
      | none => exact .refl s _
      | some folder =>
          have pruned := foldl_pruned ih folder.flSubfoldersTab s
          refine ⟨pruned.size, fun other => ?_, fun other freed wasLive => ?_⟩
          · rw [Store.erase_folder]
            split_ifs
            · exact Or.inl rfl
            · exact pruned.kept other
          · by_cases isRef : other = ref
            · exact Or.inl isRef
            · rw [Store.erase_folder, if_neg isRef] at freed
              refine Or.inr ?_
              rcases pruned.reason other freed wasLive with member | ⟨parent, parentFreed, listed⟩
              · exact ⟨ref, by rw [Store.erase_folder, if_pos rfl], folder, live, member⟩
              · exact ⟨parent, by rw [Store.erase_folder, parentFreed, ite_self], listed⟩

def Closed (s s' : Store) : Prop := ∀ parent sub, s'.folder parent = none → Listed s parent sub → s'.folder sub = none

def Later (s : Store) : Prop := ∀ parent sub, Listed s parent sub → parent < sub

theorem Pruned.listed {roots : Nat → Prop} {parent : Nat} (pruned : Pruned s s' roots) (listed : Listed s' parent sub) :
    Listed s parent sub := by
  obtain ⟨folder, live, member⟩ := listed
  rcases pruned.kept parent with freed | same
  · rw [freed] at live
    cases live
  · exact ⟨folder, same ▸ live, member⟩

theorem Closed.trans {s'' : Store} {roots roots' : Nat → Prop} (pruned : Pruned s s' roots) (first : Closed s s')
    (second : Closed s' s'') (pruned' : Pruned s' s'' roots') : Closed s s'' := by
  intro parent sub freed listed
  have still : ∀ ref, s'.folder ref = none → s''.folder ref = none := by
    intro ref gone
    rcases pruned'.kept ref with freed' | same
    · exact freed'
    · rw [same, gone]
  rcases pruned.kept parent with gone | same
  · exact still sub (first parent sub gone listed)
  · obtain ⟨folder, live, member⟩ := listed
    exact second parent sub freed ⟨folder, same ▸ live, member⟩

theorem Closed.refl (s : Store) : Closed s s := by
  intro parent sub freed listed
  obtain ⟨folder, live, _⟩ := listed
  rw [freed] at live
  cases live

section Freeing

variable {free : Store → Nat → Store} {bound : Nat}

theorem foldl_closed (prunes : ∀ s ref, Pruned s (free s ref) (· = ref))
    (closes : ∀ s ref, Later s → s.size ≤ bound + ref → (free s ref).folder ref = none ∧ Closed s (free s ref))
    (tab : List (Option Nat)) (s : Store) (later : Later s) (enough : ∀ sub, some sub ∈ tab → s.size ≤ bound + sub) :
    (∀ sub, some sub ∈ tab → (tab.foldl (fun s subfolder => subfolder.elim s (free s)) s).folder sub = none) ∧
      Closed s (tab.foldl (fun s subfolder => subfolder.elim s (free s)) s) := by
  induction tab generalizing s with
  | nil =>
      refine ⟨?_, Closed.refl s⟩
      intro sub member
      cases member
  | cons subfolder tab ih =>
      have enough' : ∀ sub, some sub ∈ tab → s.size ≤ bound + sub := fun sub member => enough sub (List.mem_cons_of_mem _ member)
      rw [List.foldl_cons]
      cases subfolder with
      | none =>
          obtain ⟨freed, closed⟩ := ih s later enough'
          refine ⟨fun sub member => ?_, closed⟩
          rcases List.mem_cons.mp member with isNone | member
          · cases isNone
          · exact freed sub member
      | some first =>
          have pruned := prunes s first
          have pruned' := foldl_pruned prunes tab (free s first)
          obtain ⟨firstFreed, firstClosed⟩ := closes s first later (enough first List.mem_cons_self)
          obtain ⟨freed, closed⟩ := ih (free s first) (fun parent sub listed => later parent sub (pruned.listed listed))
            (by rw [pruned.size]; exact enough')
          refine ⟨fun sub member => ?_, Closed.trans pruned firstClosed closed pruned'⟩
          rcases List.mem_cons.mp member with isFirst | member
          · cases isFirst
            rcases pruned'.kept first with gone | same
            · exact gone
            · exact same.trans firstFreed
          · exact freed sub member

end Freeing

/-- A depth of the folders that have been allocated since is enough to free a folder with
everything below it. -/
theorem mailmhFolderFree_closed (depth : Nat) (s : Store) (ref : Nat) (later : Later s) (enough : s.size ≤ depth + ref) :
    (mailmhFolderFree depth s ref).folder ref = none ∧ Closed s (mailmhFolderFree depth s ref) := by
  induction depth generalizing s ref with
  | zero => exact ⟨s.fresh ref (by omega), Closed.refl s⟩
  | succ depth ih =>
      rw [mailmhFolderFree]
      cases live : s.folder ref with
      | none => exact ⟨live, Closed.refl s⟩
      | some folder =>
          have beyond : ∀ sub, some sub ∈ folder.flSubfoldersTab → s.size ≤ depth + sub := by
            intro sub member
            have after := later ref sub ⟨folder, live, member⟩
            omega
          obtain ⟨freed, closed⟩ := foldl_closed (mailmhFolderFree_pruned depth) ih folder.flSubfoldersTab s later beyond
          refine ⟨by rw [Store.erase_folder, if_pos rfl], fun parent sub parentFreed listed => ?_⟩
          rw [Store.erase_folder]
          split_ifs with isRef
          · rfl
          · rw [Store.erase_folder] at parentFreed
            split_ifs at parentFreed with parentIsRef
            · obtain ⟨found, isFound, member⟩ := listed
              rw [parentIsRef, live] at isFound
              cases isFound
              exact freed sub member
            · exact closed parent sub parentFreed listed

theorem Consistent.later (consistent : Consistent s) : Later s := by
  rintro parent sub ⟨folder, live, member⟩
  exact (consistent.sound parent folder live).later sub member

theorem Sound.mem_drop (sound : Sound s ref folder) (live : s.folder sub = some subfolder) (listed : some sub ∈ folder.flSubfoldersTab)
    {other : Nat} : some other ∈ (dropSubfolder subfolder folder).flSubfoldersTab ↔ some other ∈ folder.flSubfoldersTab ∧ other ≠ sub := by
  obtain ⟨found, isFound, _, slot, _⟩ := sound.listed listed
  rw [live] at isFound
  cases isFound
  constructor
  · intro member
    obtain ⟨i, entry⟩ := List.mem_iff_getElem?.mp member
    rw [dropSubfolder, List.getElem?_set] at entry
    by_cases isSlot : subfolder.flArrayIndex = i
    · rw [if_pos isSlot] at entry
      split_ifs at entry
      cases entry
    · rw [if_neg isSlot] at entry
      refine ⟨List.mem_of_getElem? entry, ?_⟩
      rintro rfl
      obtain ⟨found, isFound, index, _⟩ := sound.entries i other entry
      rw [live] at isFound
      cases isFound
      exact isSlot index
  · rintro ⟨member, differs⟩
    obtain ⟨i, entry⟩ := List.mem_iff_getElem?.mp member
    have otherSlot : subfolder.flArrayIndex ≠ i := by
      rintro rfl
      rw [slot] at entry
      exact differs (Option.some.inj (Option.some.inj entry)).symm
    refine List.mem_of_getElem? (i := i) ?_
    rw [dropSubfolder, List.getElem?_set, if_neg otherSlot, entry]

theorem Sound.child (sound : Sound s ref folder) (live : s.folder sub = some subfolder) (listed : some sub ∈ folder.flSubfoldersTab) :
    subfolder.flParent = some ref ∧ folder.flSubfoldersTab[subfolder.flArrayIndex]? = some (some sub) ∧
      folder.flSubfoldersHash.lookup subfolder.flFilename = some sub := by
  obtain ⟨found, isFound, facts⟩ := sound.listed listed
  rw [live] at isFound
  cases isFound
  exact facts

theorem Sound.drop (sound : Sound s ref folder) (live : s.folder sub = some subfolder) (listed : some sub ∈ folder.flSubfoldersTab) :
    Sound s ref (dropSubfolder subfolder folder) := by
  have apart : ∀ {other found}, s.folder other = some found → some other ∈ folder.flSubfoldersTab → other ≠ sub →
      found.flFilename ≠ subfolder.flFilename := by
    intro other found otherLive member differs same
    obtain ⟨_, _, hashed⟩ := sound.child otherLive member
    rw [same, (sound.child live listed).2.2] at hashed
    exact differs (Option.some.inj hashed).symm
  constructor
  · constructor
    · intro i other entry
      have member := (sound.mem_drop live listed).mp (List.mem_of_getElem? entry)
      have before : folder.flSubfoldersTab[i]? = some (some other) := by
        rw [dropSubfolder, List.getElem?_set] at entry
        split_ifs at entry with isSlot
        · cases entry
        · exact entry
      obtain ⟨found, otherLive, index, parent, hashed⟩ := sound.entries i other before
      refine ⟨found, otherLive, index, parent, ?_⟩
      rw [dropSubfolder, AList.lookup_erase_ne (apart otherLive member.1 member.2)]
      exact hashed
    · intro key other hashed
      by_cases isKey : key = subfolder.flFilename
      · rw [isKey, dropSubfolder, AList.lookup_erase] at hashed
        cases hashed
      · rw [dropSubfolder, AList.lookup_erase_ne isKey] at hashed
        obtain ⟨member, found, otherLive, name⟩ := sound.hash key other hashed
        refine ⟨(sound.mem_drop live listed).mpr ⟨member, ?_⟩, found, otherLive, name⟩
        rintro rfl
        rw [live] at otherLive
        cases otherLive
        exact isKey name.symm
  · intro other found member otherLive
    obtain ⟨path, short⟩ := sound.named other found ((sound.mem_drop live listed).mp member).1 otherLive
    exact ⟨path, short⟩
  · intro other member
    exact sound.later other ((sound.mem_drop live listed).mp member).1

section Removing

variable {parent : Nat} {parentFolder : Folder}

structure Removal (s s' : Store) (ref : Nat) (folder : Folder) (parent : Nat) (parentFolder : Folder) : Prop where
  consistent : Consistent s
  live : s.folder ref = some folder
  parentLive : s.folder parent = some parentFolder
  listed : some ref ∈ parentFolder.flSubfoldersTab
  gone : s'.folder ref = none
  pruned : Pruned (s.modify parent (dropSubfolder folder)) s' (· = ref)
  closed : Closed (s.modify parent (dropSubfolder folder)) s'

variable (removal : Removal s s' ref folder parent parentFolder)

include removal

theorem Removal.dropped_listed {other : Nat} : Listed (s.modify parent (dropSubfolder folder)) other sub ↔ Listed s other sub ∧ sub ≠ ref := by
  have parentSound := removal.consistent.sound parent parentFolder removal.parentLive
  rw [Listed, Store.modify_folder]
  split_ifs with isParent
  · rw [removal.parentLive, isParent]
    constructor
    · rintro ⟨found, isFound, member⟩
      cases isFound
      obtain ⟨member, differs⟩ := (parentSound.mem_drop removal.live removal.listed).mp member
      exact ⟨⟨parentFolder, removal.parentLive, member⟩, differs⟩
    · rintro ⟨⟨found, isFound, member⟩, differs⟩
      rw [removal.parentLive] at isFound
      cases isFound
      exact ⟨_, rfl, (parentSound.mem_drop removal.live removal.listed).mpr ⟨member, differs⟩⟩
  · refine ⟨fun listed => ⟨listed, ?_⟩, fun listed => listed.1⟩
    rintro rfl
    obtain ⟨found, isFound, member⟩ := listed
    have one := ((removal.consistent.sound other found isFound).child removal.live member).1
    have two := (parentSound.child removal.live removal.listed).1
    rw [one] at two
    exact isParent (Option.some.inj two)

theorem Removal.persist (other : Nat) : (s'.folder other = none) ∨
    ∀ found, s.folder other = some found → ∃ found', s'.folder other = some found' ∧ SamePlace found found' := by
  rcases removal.pruned.kept other with freed | same
  · exact Or.inl freed
  · refine Or.inr fun found live => ?_
    rw [same, Store.modify_folder]
    split_ifs with isParent
    · rw [← isParent, live]
      exact ⟨_, rfl, rfl, rfl, rfl⟩
    · exact ⟨found, live, .refl found⟩

theorem Removal.lives {other : Nat} (alive : s'.folder other ≠ none) (listed : Listed s other sub) (differs : sub ≠ ref) :
    s'.folder sub ≠ none := by
  intro freed
  obtain ⟨found, isFound, member⟩ := listed
  obtain ⟨subfolder, subLive, isParent, _⟩ := (removal.consistent.sound other found isFound).listed member
  have wasLive : (s.modify parent (dropSubfolder folder)).folder sub ≠ none := by
    rw [Store.modify_folder]
    split_ifs with same
    · rw [← same, subLive]
      simp
    · rw [subLive]
      simp
  rcases removal.pruned.reason sub freed wasLive with same | ⟨above, aboveFreed, aboveListed⟩
  · exact differs same
  · obtain ⟨aboveFolder, aboveLive, aboveMember⟩ := (removal.dropped_listed.mp aboveListed).1
    have same := ((removal.consistent.sound above aboveFolder aboveLive).child subLive aboveMember).1
    rw [isParent] at same
    rw [← Option.some.inj same] at aboveFreed
    exact alive aboveFreed

theorem Removal.consistent' : Consistent s' := by
  have parentSound := removal.consistent.sound parent parentFolder removal.parentLive
  have origin : ∀ {other found'}, s'.folder other = some found' →
      (s.modify parent (dropSubfolder folder)).folder other = some found' := by
    intro other found' live
    rcases removal.pruned.kept other with freed | same
    · rw [freed] at live
      cases live
    · rw [← same, live]
  constructor
  · intro other found' live
    have dropped := origin live
    have sound : Sound s other found' := by
      rw [Store.modify_folder] at dropped
      split_ifs at dropped with isParent
      · rw [removal.parentLive] at dropped
        cases dropped
        rw [isParent]
        exact parentSound.drop removal.live removal.listed
      · exact removal.consistent.sound other found' dropped
    refine sound.persist ?_ rfl rfl rfl
    intro sub subfolder member subLive
    obtain ⟨listed, differs⟩ := removal.dropped_listed.mp ⟨found', dropped, member⟩
    rcases removal.persist sub with freed | persists
    · exact absurd freed (removal.lives (by rw [live]; simp) listed differs)
    · exact persists subfolder subLive
  · intro other found' above live isParent
    have dropped := origin live
    have listed : Listed s above other := by
      rw [Store.modify_folder] at dropped
      split_ifs at dropped with same
      · rw [removal.parentLive] at dropped
        cases dropped
        rw [same]
        exact removal.consistent.owned parent parentFolder above removal.parentLive isParent
      · exact removal.consistent.owned other found' above dropped isParent
    have differs : other ≠ ref := by
      rintro rfl
      rw [removal.gone] at live
      cases live
    have listed' := removal.dropped_listed.mpr ⟨listed, differs⟩
    rcases removal.pruned.kept above with freed | same
    · have gone := removal.closed above other freed listed'
      rw [gone] at live
      cases live
    · obtain ⟨aboveFolder, aboveLive, member⟩ := listed'
      exact ⟨aboveFolder, by rw [same, aboveLive], member⟩

end Removing

theorem remove_cases (consistent : Consistent s) {outcome : Except MhError Unit}
    (removed : mailmhFolderRemoveSubfolder s ref = some (outcome, s')) :
    ∃ folder parent parentFolder, Removal s s' ref folder parent parentFolder := by
  rw [mailmhFolderRemoveSubfolder] at removed
  cases live : s.folder ref with
  | none => simp only [live, reduceCtorEq] at removed
  | some folder =>
      cases isParent : folder.flParent with
      | none => simp only [live, isParent, reduceCtorEq] at removed
      | some parent =>
          obtain ⟨parentFolder, parentLive, listed⟩ := consistent.owned ref folder parent live isParent
          have parentSound := consistent.sound parent parentFolder parentLive
          obtain ⟨_, _, hashed⟩ := parentSound.child live listed
          simp only [live, isParent, parentLive, hashed, Option.some.injEq, Prod.mk.injEq] at removed
          obtain ⟨_, rfl⟩ := removed
          have later : Later (s.modify parent (dropSubfolder folder)) := by
            intro above sub aboveListed
            obtain ⟨aboveFolder, aboveLive, member⟩ := aboveListed
            rw [Store.modify_folder] at aboveLive
            split_ifs at aboveLive with same
            · rw [parentLive] at aboveLive
              cases aboveLive
              rw [same]
              exact parentSound.later sub ((parentSound.mem_drop live listed).mp member).1
            · exact consistent.later above sub ⟨aboveFolder, aboveLive, member⟩
          obtain ⟨gone, closed⟩ := mailmhFolderFree_closed s.size _ ref later (Nat.le_add_right s.size ref)
          exact ⟨folder, parent, parentFolder, consistent, live, parentLive, listed, gone, mailmhFolderFree_pruned _ _ _, closed⟩

theorem Removal.keeps {parent other : Nat} {parentFolder found : Folder} (removal : Removal s s' ref folder parent parentFolder)
    (live : s.folder other = some found) (noParent : found.flParent = none) : s'.folder other ≠ none := by
  intro freed
  have wasLive : (s.modify parent (dropSubfolder folder)).folder other ≠ none := by
    rw [Store.modify_folder]
    split_ifs with same
    · rw [← same, live]
      simp
    · rw [live]
      simp
  have parentless : ∀ {above}, ¬ Listed s above other := by
    rintro above ⟨aboveFolder, aboveLive, member⟩
    rw [((removal.consistent.sound above aboveFolder aboveLive).child live member).1] at noParent
    cases noParent
  rcases removal.pruned.reason other freed wasLive with rfl | ⟨above, _, listed⟩
  · exact parentless ⟨parentFolder, removal.parentLive, removal.listed⟩
  · exact parentless (removal.dropped_listed.mp listed).1

end Etpan.Mh
