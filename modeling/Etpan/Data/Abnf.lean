import Etpan.Data.Bytes

namespace Etpan.Data

open Computability

/-! Productions of augmented BNF as languages of octets: concatenation is `*`, alternatives
are `+`, an optional part is `1 + _` and a repetition is `_∗`. -/

def asciiText (text : String) : List UInt8 := text.toList.map ascii

def tolower (byte : UInt8) : UInt8 :=
  if ascii 'A' ≤ byte && byte ≤ ascii 'Z' then byte + 32 else byte

/-- A quoted string of the notation, which stands for all ways to capitalise it. -/
def terminal (text : String) : Language UInt8 :=
  fun octets => octets.map tolower = (asciiText text).map tolower

def octet (isMember : UInt8 → Bool) : Language UInt8 :=
  fun octets => ∃ byte, isMember byte = true ∧ octets = [byte]

def separated (separator item : Language UInt8) : Language UInt8 := item * (separator * item)∗

theorem mem_terminal (text : String) : asciiText text ∈ terminal text := rfl

theorem mem_octet {isMember : UInt8 → Bool} {byte : UInt8} (member : isMember byte = true) : [byte] ∈ octet isMember :=
  ⟨byte, member, rfl⟩

theorem mem_octets {isMember : UInt8 → Bool} {text : List UInt8} :
    text ∈ (octet isMember)∗ ↔ ∀ byte ∈ text, isMember byte = true := by
  rw [Language.mem_kstar]
  constructor
  · rintro ⟨parts, rfl, members⟩ byte member
    obtain ⟨part, isPart, inPart⟩ := List.mem_flatten.mp member
    obtain ⟨other, isMember, rfl⟩ := members part isPart
    rwa [List.mem_singleton.mp inPart]
  · intro members
    refine ⟨text.map fun byte => [byte], ?_, ?_⟩
    · rw [← List.flatMap_def, List.flatMap_singleton']
    · intro part isPart
      obtain ⟨byte, member, rfl⟩ := List.mem_map.mp isPart
      exact mem_octet (members byte member)

theorem mem_octets_one {isMember : UInt8 → Bool} {text : List UInt8} :
    text ∈ octet isMember * (octet isMember)∗ ↔ text ≠ [] ∧ ∀ byte ∈ text, isMember byte = true := by
  rw [Language.mem_mul]
  constructor
  · rintro ⟨first, ⟨byte, member, rfl⟩, others, members, rfl⟩
    rw [mem_octets] at members
    exact ⟨by simp, by simpa using ⟨member, members⟩⟩
  · rintro ⟨nonempty, members⟩
    obtain ⟨byte, others, rfl⟩ := List.exists_cons_of_ne_nil nonempty
    exact ⟨[byte], mem_octet (members byte (by simp)), others,
      mem_octets.mpr fun other member => members other (by simp [member]), rfl⟩

theorem flatMap_mem_kstar {α : Type} {item : Language UInt8} {list : List α} {write : α → List UInt8}
    (items : ∀ value ∈ list, write value ∈ item) : list.flatMap write ∈ item∗ := by
  rw [List.flatMap_def]
  apply Language.join_mem_kstar
  intro part isPart
  obtain ⟨value, member, rfl⟩ := List.mem_map.mp isPart
  exact items value member

end Etpan.Data
