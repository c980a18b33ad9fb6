import Etpan.Data.Bytes

namespace Etpan.Data

/-! Files with their contents, and calls that may fail.

Each call takes the error that it is made to fail with, if any; where none is given it does
what POSIX says, which may still be an error. -/

inductive Errno where
  | exdev
  | eperm
  | enoent
  | eexist
  | other (number : Nat)
deriving Repr, DecidableEq

variable {Path : Type} [DecidableEq Path]

abbrev Files (Path : Type) := AList fun _ : Path => List UInt8

def linkFile (files : Files Path) (fault : Option Errno) (source target : Path) : Except Errno (Files Path) :=
  match fault with
  | some errno => .error errno
  | none =>
      match files.lookup source with
      | none => .error .enoent
      | some content => if target ∈ files then .error .eexist else .ok (files.insert target content)

/-- A file of the new name is replaced. -/
def renameFile (files : Files Path) (fault : Option Errno) (source target : Path) : Except Errno (Files Path) :=
  match fault with
  | some errno => .error errno
  | none =>
      match files.lookup source with
      | none => .error .enoent
      | some content => .ok ((files.erase source).insert target content)

def unlinkFile (files : Files Path) (fault : Option Errno) (path : Path) : Except Errno (Files Path) :=
  match fault with
  | some errno => .error errno
  | none => if path ∈ files then .ok (files.erase path) else .error .enoent

def ignoringErrors (files : Files Path) : Except Errno (Files Path) → Files Path
  | .ok files' => files'
  | .error _ => files

theorem ignoringErrors_unlinkFile {files : Files Path} {fault : Option Errno} {path other : Path} (differs : other ≠ path) :
    (ignoringErrors files (unlinkFile files fault path)).lookup other = files.lookup other := by
  cases fault with
  | some errno => rfl
  | none =>
      rw [unlinkFile]
      split_ifs
      · exact AList.lookup_erase_ne differs
      · rfl

/-- The content of a file stands at another path, and only these two paths have changed. -/
structure Moved (files files' : Files Path) (source target : Path) (content : List UInt8) : Prop where
  found : files'.lookup target = some content
  others : ∀ path, path ≠ source → path ≠ target → files'.lookup path = files.lookup path

section Moving

variable {files : Files Path} {source target : Path} {content : List UInt8}

/-- A link to a new name, and then a removal of the old one, whether it fails or not. -/
theorem linkFile_moved {fault : Option Errno} {linked : Files Path} (found : files.lookup source = some content)
    (made : linkFile files fault source target = .ok linked) (unlink : Option Errno) :
    Moved files (ignoringErrors linked (unlinkFile linked unlink source)) source target content := by
  cases fault with
  | some errno => cases made
  | none =>
      simp only [linkFile, found] at made
      split_ifs at made with there
      cases made
      have differs : target ≠ source := by
        rintro rfl
        exact there (AList.lookup_isSome.mp (by rw [found]; rfl))
      constructor
      · rw [ignoringErrors_unlinkFile differs, AList.lookup_insert]
      · intro path notSource notTarget
        rw [ignoringErrors_unlinkFile notSource, AList.lookup_insert_ne notTarget]

theorem renameFile_moved {fault : Option Errno} {renamed : Files Path} (found : files.lookup source = some content)
    (made : renameFile files fault source target = .ok renamed) : Moved files renamed source target content := by
  cases fault with
  | some errno => cases made
  | none =>
      simp only [renameFile, found] at made
      cases made
      refine ⟨AList.lookup_insert _, ?_⟩
      intro path notSource notTarget
      rw [AList.lookup_insert_ne notTarget, AList.lookup_erase_ne notSource]

theorem linkFile_error {fault : Option Errno} {errno : Errno} (found : files.lookup source = some content)
    (fresh : target ∉ files) (failed : linkFile files fault source target = .error errno) : fault = some errno := by
  cases fault with
  | some other =>
      cases failed
      rfl
  | none => simp [linkFile, found, fresh] at failed

theorem renameFile_error {fault : Option Errno} {errno : Errno} (found : files.lookup source = some content)
    (failed : renameFile files fault source target = .error errno) : fault = some errno := by
  cases fault with
  | some other =>
      cases failed
      rfl
  | none => simp [renameFile, found] at failed

theorem renameFile_ok {fault : Option Errno} {renamed : Files Path} (made : renameFile files fault source target = .ok renamed) :
    fault = none := by
  cases fault with
  | some errno => cases made
  | none => rfl

end Moving

end Etpan.Data
