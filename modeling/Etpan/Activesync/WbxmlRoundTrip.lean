import Etpan.Activesync.Wbxml

namespace Etpan.Activesync

open Etpan.Data

/-! Decoding what was encoded. -/

theorem mbUintGroups_some (room value : Nat) (small : value < 128 ^ room) :
    ∃ groups, mbUintGroups room value = some groups ∧ groups.length ≤ room := by
  induction room generalizing value with
  | zero =>
      have zero : value = 0 := by simpa using small
      exact ⟨[], by simp [mbUintGroups, zero], by simp⟩
  | succ room ih =>
      by_cases zero : value = 0
      · exact ⟨[], by simp [mbUintGroups, zero], by simp⟩
      · have smaller : value / 128 < 128 ^ room := by
          rw [Nat.pow_succ] at small
          exact Nat.div_lt_of_lt_mul (by omega)
        obtain ⟨groups, spelled, bound⟩ := ih (value / 128) smaller
        refine ⟨groups ++ [UInt8.ofNat (128 + value % 128)], ?_, by simpa using bound⟩
        rw [mbUintGroups, if_neg zero]
        simp [spelled]

theorem mbUintGroups_read {room value : Nat} {groups : List UInt8}
    (spelled : mbUintGroups room value = some groups) (bounded : value ≤ (2 ^ 32 - 1) / 128)
    (more : Nat) (rest : List UInt8) :
    readMbUintFrom (more + groups.length) 0 (groups ++ rest) = readMbUintFrom more value rest := by
  induction room generalizing value groups more rest with
  | zero =>
      by_cases zero : value = 0
      · rw [mbUintGroups, if_pos zero, Option.some.injEq] at spelled
        simp [← spelled, zero]
      · simp [mbUintGroups, zero] at spelled
  | succ room ih =>
      rw [mbUintGroups] at spelled
      by_cases zero : value = 0
      · rw [if_pos zero, Option.some.injEq] at spelled
        simp [← spelled, zero]
      · rw [if_neg zero] at spelled
        obtain ⟨front, spelledFront, whole⟩ := Option.map_eq_some_iff.mp spelled
        have inside : value / 128 ≤ (2 ^ 32 - 1) / 128 := by omega
        have head := ih spelledFront inside (more + 1) (UInt8.ofNat (128 + value % 128) :: rest)
        have byte : (UInt8.ofNat (128 + value % 128)).toNat = 128 + value % 128 := by
          rw [UInt8.toNat_ofNat']
          omega
        have continued : ¬128 + value % 128 < 128 := by omega
        have low : (128 + value % 128) % 128 = value % 128 := by omega
        have allowed : ¬(2 ^ 32 - 1) / 128 < value / 128 := by omega
        rw [← whole, List.length_append, List.length_singleton, List.append_assoc, List.singleton_append,
          show more + (front.length + 1) = more + 1 + front.length by omega, head, readMbUintFrom,
          if_neg allowed, byte, if_neg continued, low, Nat.div_add_mod']

theorem appendMbUint_read (value : UInt32) :
    ∃ bytes, appendMbUint value = .ok bytes ∧ bytes ≠ [] ∧
      ∀ rest, readMbUint (bytes ++ rest) = .ok (value.toNat, rest) := by
  have bound := value.toNat_lt
  have small : value.toNat / 128 < 128 ^ 4 := by omega
  obtain ⟨groups, spelled, length⟩ := mbUintGroups_some 4 (value.toNat / 128) small
  have byte : (UInt8.ofNat (value.toNat % 128)).toNat = value.toNat % 128 := by
    rw [UInt8.toNat_ofNat']
    omega
  have last : value.toNat % 128 < 128 := by omega
  have low : value.toNat % 128 % 128 = value.toNat % 128 := by omega
  have allowed : ¬(2 ^ 32 - 1) / 128 < value.toNat / 128 := by omega
  refine ⟨groups ++ [UInt8.ofNat (value.toNat % 128)], by simp [appendMbUint, spelled], by simp, ?_⟩
  intro rest
  have read := mbUintGroups_read spelled (by omega) (4 - groups.length + 1)
    (UInt8.ofNat (value.toNat % 128) :: rest)
  rw [show 4 - groups.length + 1 + groups.length = 5 by omega] at read
  rw [readMbUint, List.append_assoc, List.singleton_append, read, readMbUintFrom, if_neg allowed, byte,
    if_pos last, low, Nat.div_add_mod']

theorem splitNul_append {text : List UInt8} (nulFree : NulFree text) (rest : List UInt8) :
    splitNul (text ++ 0 :: rest) = some (text, rest) := by
  induction text with
  | nil => simp [splitNul]
  | cons byte text ih =>
      have nonzero := nulFree byte (by simp)
      have tail := ih fun other member => nulFree other (by simp [member])
      simp [splitNul, nonzero, tail]

theorem splitNul_some {bytes text after : List UInt8} (split : splitNul bytes = some (text, after)) :
    bytes = text ++ 0 :: after ∧ NulFree text := by
  induction bytes generalizing text with
  | nil => simp [splitNul] at split
  | cons byte rest ih =>
      rw [splitNul] at split
      by_cases zero : byte = 0
      · rw [if_pos zero] at split
        cases split
        exact ⟨by simp [zero], by simp [NulFree]⟩
      · rw [if_neg zero] at split
        obtain ⟨⟨front, behind⟩, inner, same⟩ := Option.map_eq_some_iff.mp split
        cases same
        obtain ⟨whole, free⟩ := ih inner
        refine ⟨by rw [whole, List.cons_append], ?_⟩
        intro other member
        rcases List.mem_cons.mp member with rfl | later
        · exact zero
        · exact free other later

mutual

def WbxmlNode.Everywhere (property : WbxmlNode → Prop) : WbxmlNode → Prop
  | ⟨codePage, token, text, opaqueData, children⟩ =>
      property ⟨codePage, token, text, opaqueData, children⟩ ∧ everywhereAll property children

def everywhereAll (property : WbxmlNode → Prop) : List WbxmlNode → Prop
  | [] => True
  | child :: rest => child.Everywhere property ∧ everywhereAll property rest

end

mutual

def WbxmlNode.size : WbxmlNode → Nat
  | ⟨_, _, _, _, children⟩ => sizeAll children + 1

def sizeAll : List WbxmlNode → Nat
  | [] => 0
  | child :: rest => child.size + sizeAll rest

end

mutual

def WbxmlNode.height : WbxmlNode → Nat
  | ⟨_, _, _, _, children⟩ => heightAll children

def heightAll : List WbxmlNode → Nat
  | [] => 0
  | child :: rest => max (child.height + 1) (heightAll rest)

end

/-- What the encoding of one node needs so that it can be read back: its token is no
control octet unless content marks it, its text and data are within the limits. -/
structure Readable (mallocZero : Bool) (node : WbxmlNode) : Prop where
  positive : 1 ≤ node.token.toNat
  masked : node.token.toNat < 64
  tagged : 5 ≤ node.token.toNat ∨ nodeHasContent node = true
  text : ∀ text, node.text = some text → NulFree text ∧ text.length ≤ wbxmlMaxStringSize
  data : ∀ data, node.opaqueData = some data → data.length ≤ wbxmlMaxOpaqueSize ∧
    (data = [] → mallocZero = true)

def StartsChild (byte : UInt8) : Prop :=
  byte ≠ wbxmlEnd ∧ byte ≠ wbxmlSwitchPage ∧ byte ≠ wbxmlStrI ∧ byte ≠ wbxmlStrT ∧ byte ≠ wbxmlOpaque

instance (byte : UInt8) : Decidable (StartsChild byte) :=
  inferInstanceAs (Decidable (_ ∧ _))

theorem contentTag_facts {token : UInt8} (positive : 1 ≤ token.toNat) (masked : token.toNat < 64) :
    StartsChild (token ||| wbxmlHasContent) ∧ tagRefused (token ||| wbxmlHasContent) = false ∧
      (token ||| wbxmlHasContent) &&& wbxmlTokenMask = token ∧
      (token ||| wbxmlHasContent) &&& wbxmlHasContent ≠ 0 := by
  have every : ∀ byte : UInt8, 1 ≤ byte.toNat ∧ byte.toNat < 64 →
      StartsChild (byte ||| wbxmlHasContent) ∧ tagRefused (byte ||| wbxmlHasContent) = false ∧
      (byte ||| wbxmlHasContent) &&& wbxmlTokenMask = byte ∧
      (byte ||| wbxmlHasContent) &&& wbxmlHasContent ≠ 0 := by
    apply forall_octet
    decide +kernel
  exact every token ⟨positive, masked⟩

theorem plainTag_facts {token : UInt8} (atLeast : 5 ≤ token.toNat) (masked : token.toNat < 64) :
    StartsChild token ∧ tagRefused token = false ∧ token &&& wbxmlTokenMask = token ∧
      token &&& wbxmlHasContent = 0 := by
  have every : ∀ byte : UInt8, 5 ≤ byte.toNat ∧ byte.toNat < 64 →
      StartsChild byte ∧ tagRefused byte = false ∧ byte &&& wbxmlTokenMask = byte ∧
      byte &&& wbxmlHasContent = 0 := by
    apply forall_octet
    decide +kernel
  exact every token ⟨atLeast, masked⟩

section Content

variable {mallocZero : Bool} {stringTable : List UInt8}

theorem decodeNodeContent_end (turns depth : Nat) (node : WbxmlNode) (rest : List UInt8) (page : UInt8)
    (count : Nat) :
    decodeNodeContent mallocZero stringTable (turns + 1) depth node ⟨wbxmlEnd :: rest, page, count⟩ =
      .ok (node, ⟨rest, page, count⟩) := by
  simp [decodeNodeContent]

theorem decodeNodeContent_switch (turns depth : Nat) (node : WbxmlNode) (rest : List UInt8)
    (page codePage : UInt8) (count : Nat) :
    decodeNodeContent mallocZero stringTable (turns + 1) depth node
        ⟨wbxmlSwitchPage :: codePage :: rest, page, count⟩ =
      decodeNodeContent mallocZero stringTable turns depth node ⟨rest, codePage, count⟩ := by
  simp [decodeNodeContent, wbxmlSwitchPage, wbxmlEnd]

theorem decodeNodeContent_text {text : List UInt8} (nulFree : NulFree text)
    (fits : text.length ≤ wbxmlMaxStringSize) (turns depth : Nat) {node : WbxmlNode}
    (fresh : node.text = none) (rest : List UInt8) (page : UInt8) (count : Nat) :
    decodeNodeContent mallocZero stringTable (turns + 1) depth node
        ⟨wbxmlStrI :: (text ++ 0 :: rest), page, count⟩ =
      decodeNodeContent mallocZero stringTable turns depth { node with text := some text }
        ⟨rest, page, count⟩ := by
  have read : readInlineString (text ++ 0 :: rest) = some (text, rest) := by
    simp [readInlineString, splitNul_append nulFree, fits]
  have appended : appendNodeText node text = .ok { node with text := some text } := by
    simp [appendNodeText, fresh]
  have notEnd : ¬wbxmlStrI = wbxmlEnd := by decide
  have notSwitch : ¬wbxmlStrI = wbxmlSwitchPage := by decide
  simp only [decodeNodeContent, notEnd, notSwitch, if_false, if_true, read, appended]

theorem decodeNodeContent_data {data : List UInt8} (fits : data.length ≤ wbxmlMaxOpaqueSize)
    (allocated : data = [] → mallocZero = true) {length : List UInt8}
    (spelled : ∀ rest, readMbUint (length ++ rest) = .ok (data.length, rest)) (turns depth : Nat)
    (node : WbxmlNode) (rest : List UInt8) (page : UInt8) (count : Nat) :
    decodeNodeContent mallocZero stringTable (turns + 1) depth node
        ⟨wbxmlOpaque :: (length ++ (data ++ rest)), page, count⟩ =
      decodeNodeContent mallocZero stringTable turns depth { node with opaqueData := some data }
        ⟨rest, page, count⟩ := by
  have stored : setNodeOpaque mallocZero node data = { node with opaqueData := some data } := by
    by_cases empty : data = []
    · simp [setNodeOpaque, allocated empty]
    · simp [setNodeOpaque, empty]
  have notEnd : ¬wbxmlOpaque = wbxmlEnd := by decide
  have notSwitch : ¬wbxmlOpaque = wbxmlSwitchPage := by decide
  have notStrI : ¬wbxmlOpaque = wbxmlStrI := by decide
  have notStrT : ¬wbxmlOpaque = wbxmlStrT := by decide
  have allowed : ¬wbxmlMaxOpaqueSize < data.length := by omega
  have present : ¬(data ++ rest).length < data.length := by simp
  simp only [decodeNodeContent, notEnd, notSwitch, notStrI, notStrT, if_false, if_true, spelled, allowed,
    present, List.take_left, List.drop_left, stored]

theorem decodeNodeContent_child {byte : UInt8} (starts : StartsChild byte) {turns depth : Nat}
    {ctx after : WbxmlDecodeContext} {rest : List UInt8} (front : ctx.rest = byte :: rest)
    {child : WbxmlNode}
    (decoded : decodeNode mallocZero stringTable turns (depth + 1) ctx = .ok (child, after))
    (node : WbxmlNode) :
    decodeNodeContent mallocZero stringTable (turns + 1) depth node ctx =
      decodeNodeContent mallocZero stringTable turns depth (mailactivesyncWbxmlNodeAddChild node child)
        after := by
  obtain ⟨notEnd, notSwitch, notStrI, notStrT, notOpaque⟩ := starts
  simp only [decodeNodeContent, front, notEnd, notSwitch, notStrI, notStrT, notOpaque, if_false, decoded]

end Content

section RoundTrip

variable (mallocZero : Bool) (stringTable : List UInt8)

/-- The octets of a node behind its page switch, and that they are read back as the node. -/
def NodeRestored (depth count : Nat) (node : WbxmlNode) (body : List UInt8) (after : UInt8) : Prop :=
  (∀ page, encodeNode page node = .ok (encodeSwitch page node.codePage ++ body, after)) ∧
    (∃ tag tail, body = tag :: tail ∧ StartsChild tag) ∧
    ∀ rest turns, 2 * body.length ≤ turns →
      decodeNode mallocZero stringTable turns depth ⟨body ++ rest, node.codePage, count⟩ =
        .ok (node, ⟨rest, after, count + node.size⟩)

/-- The octets of a list of children, and that the content loop appends the children. -/
def ChildrenRestored (depth count : Nat) (page : UInt8) (children : List WbxmlNode) (bytes : List UInt8)
    (after : UInt8) : Prop :=
  encodeChildren page children = .ok (bytes, after) ∧
    ∀ parent rest turns, 2 * bytes.length + 1 ≤ turns →
      decodeNodeContent mallocZero stringTable turns depth parent ⟨bytes ++ wbxmlEnd :: rest, page, count⟩ =
        .ok ({ parent with children := parent.children ++ children }, ⟨rest, after, count + sizeAll children⟩)

theorem readTag_plain {byte : UInt8} (notSwitch : byte ≠ wbxmlSwitchPage) (page : UInt8) (rest : List UInt8) :
    readTag page (byte :: rest) = .ok (byte, rest, page) := by
  unfold readTag
  simp [notSwitch]

variable {mallocZero stringTable}

theorem NodeRestored.leaf {depth count : Nat} {node : WbxmlNode} (readable : Readable mallocZero node)
    (bare : nodeHasContent node = false) (shallow : depth ≤ wbxmlMaxDepth)
    (few : count + 1 ≤ wbxmlMaxNodeCount) :
    NodeRestored mallocZero stringTable depth count node [node.token] node.codePage := by
  obtain ⟨codePage, token, text, opaqueData, children⟩ := node
  have tagged : 5 ≤ token.toNat := by
    rcases readable.tagged with high | content
    · exact high
    · rw [bare] at content
      contradiction
  obtain ⟨starts, accepted, same, flag⟩ := plainTag_facts tagged readable.masked
  have empty := bare
  simp only [nodeHasContent, Bool.or_eq_false_iff, Option.isSome_eq_false_iff, Option.isNone_iff_eq_none,
    Bool.not_eq_false', List.isEmpty_iff] at empty
  obtain ⟨⟨rfl, rfl⟩, rfl⟩ := empty
  refine ⟨fun page => ?_, ⟨token, [], rfl, starts⟩, ?_⟩
  · rw [encodeNode, if_neg (by rw [bare]; decide)]
  · rintro rest (_ | turns) enough
    · simp at enough
    · have deep : ¬wbxmlMaxDepth < depth := by omega
      have many : ¬wbxmlMaxNodeCount < count + 1 := by omega
      simp only [decodeNode, deep, if_false, List.cons_append, List.nil_append,
        readTag_plain starts.2.1, accepted, Bool.false_eq_true, many, same, flag, ne_eq, not_true_eq_false,
        WbxmlNode.size, sizeAll, Nat.zero_add]

theorem decodeContent_items {depth count : Nat} {node : WbxmlNode} (readable : Readable mallocZero node)
    {inner : List UInt8} {page after : UInt8}
    (restored : ChildrenRestored mallocZero stringTable depth count page node.children inner after) :
    ∃ data, encodeOpaque node.opaqueData = .ok data ∧
      ∀ rest turns, 2 * (encodeText node.text ++ data ++ inner).length + 1 ≤ turns →
        decodeNodeContent mallocZero stringTable turns depth
            { codePage := node.codePage, token := node.token }
            ⟨encodeText node.text ++ data ++ inner ++ wbxmlEnd :: rest, page, count⟩ =
          .ok (node, ⟨rest, after, count + sizeAll node.children⟩) := by
  obtain ⟨codePage, token, text, opaqueData, children⟩ := node
  -- the data and the children behind a text that has been read
  have behind : ∃ data, encodeOpaque opaqueData = .ok data ∧
      ∀ rest turns, 2 * (data ++ inner).length + 1 ≤ turns →
        decodeNodeContent mallocZero stringTable turns depth { codePage, token, text }
            ⟨data ++ (inner ++ wbxmlEnd :: rest), page, count⟩ =
          .ok (⟨codePage, token, text, opaqueData, children⟩, ⟨rest, after, count + sizeAll children⟩) := by
    cases opaqueData with
    | none =>
        refine ⟨[], rfl, fun rest turns enough => ?_⟩
        rw [List.nil_append] at enough ⊢
        rw [restored.2 _ rest turns enough]
        rfl
    | some data =>
        obtain ⟨fits, allocated⟩ := readable.data data rfl
        have limit : wbxmlMaxOpaqueSize = 33554432 := by decide
        have size : (UInt32.ofNat data.length).toNat = data.length := by
          rw [UInt32.toNat_ofNat']
          omega
        obtain ⟨length, spelled, -, read⟩ := appendMbUint_read (UInt32.ofNat data.length)
        rw [size] at read
        have allowed : ¬2 ^ 32 - 1 < data.length := by omega
        refine ⟨wbxmlOpaque :: (length ++ data), ?_, ?_⟩
        · simp only [encodeOpaque, allowed, if_false, spelled]
          rfl
        · rintro rest (_ | turns) enough
          · simp at enough
          · have shape : wbxmlOpaque :: (length ++ data) ++ (inner ++ wbxmlEnd :: rest) =
                wbxmlOpaque :: (length ++ (data ++ (inner ++ wbxmlEnd :: rest))) := by simp
            rw [shape, decodeNodeContent_data fits allocated read,
              restored.2 _ rest turns (by simp at enough ⊢; omega)]
            rfl
  obtain ⟨data, spelledData, readData⟩ := behind
  refine ⟨data, spelledData, ?_⟩
  cases text with
  | none =>
      intro rest turns enough
      simpa [encodeText] using readData rest turns (by simpa [encodeText] using enough)
  | some text =>
      obtain ⟨nulFree, fits⟩ := readable.text text rfl
      rintro rest (_ | turns) enough
      · simp at enough
      · have shape : encodeText (some text) ++ data ++ inner ++ wbxmlEnd :: rest =
            wbxmlStrI :: (text ++ 0 :: (data ++ (inner ++ wbxmlEnd :: rest))) := by
          simp [encodeText, cString_eq_self nulFree]
        rw [shape, decodeNodeContent_text nulFree fits turns depth rfl]
        exact readData rest turns (by simp [encodeText] at enough ⊢; omega)

theorem NodeRestored.element {depth count : Nat} {node : WbxmlNode} (readable : Readable mallocZero node)
    (content : nodeHasContent node = true) (shallow : depth ≤ wbxmlMaxDepth)
    (few : count + 1 ≤ wbxmlMaxNodeCount) {inner : List UInt8} {after : UInt8}
    (restored : ChildrenRestored mallocZero stringTable depth (count + 1) node.codePage node.children inner
      after) :
    ∃ body, NodeRestored mallocZero stringTable depth count node body after := by
  obtain ⟨data, spelledData, read⟩ := decodeContent_items readable restored
  obtain ⟨starts, accepted, same, flag⟩ := contentTag_facts readable.positive readable.masked
  obtain ⟨codePage, token, text, opaqueData, children⟩ := node
  refine ⟨(token ||| wbxmlHasContent) :: (encodeText text ++ data ++ inner ++ [wbxmlEnd]),
    fun page => ?_, ⟨_, _, rfl, starts⟩, ?_⟩
  · rw [encodeNode, if_pos content]
    simp only [spelledData, restored.1]
    rfl
  · rintro rest (_ | turns) enough
    · simp at enough
    · have deep : ¬wbxmlMaxDepth < depth := by omega
      have many : ¬wbxmlMaxNodeCount < count + 1 := by omega
      have inside := read rest turns (by simp at enough ⊢; omega)
      have total : count + WbxmlNode.size ⟨codePage, token, text, opaqueData, children⟩ =
          count + 1 + sizeAll children := by
        rw [WbxmlNode.size]
        omega
      have shape : (token ||| wbxmlHasContent) :: (encodeText text ++ data ++ inner ++ [wbxmlEnd]) ++ rest =
          (token ||| wbxmlHasContent) :: (encodeText text ++ data ++ inner ++ wbxmlEnd :: rest) := by simp
      rw [shape, total]
      simp only [decodeNode, deep, if_false, readTag_plain starts.2.1, accepted, Bool.false_eq_true, many,
        flag, ne_eq, not_false_eq_true, if_true]
      simp only [same]
      exact inside

theorem ChildrenRestored.cons {depth count : Nat} {child : WbxmlNode} {rest : List WbxmlNode}
    {body others : List UInt8} {middle after : UInt8}
    (first : NodeRestored mallocZero stringTable (depth + 1) count child body middle)
    (later : ChildrenRestored mallocZero stringTable depth (count + child.size) middle rest others after)
    (page : UInt8) :
    ChildrenRestored mallocZero stringTable depth count page (child :: rest)
      (encodeSwitch page child.codePage ++ body ++ others) after := by
  obtain ⟨spelled, ⟨tag, tail, shape, starts⟩, read⟩ := first
  obtain ⟨spelledRest, readRest⟩ := later
  refine ⟨?_, fun parent behind turns enough => ?_⟩
  · rw [encodeChildren, spelled]
    simp only [bind, Except.bind, spelledRest]
  have total : count + sizeAll (child :: rest) = count + child.size + sizeAll rest := by
    rw [sizeAll]
    omega
  rw [total]
  -- the child once its page is in force
  have tagged : ∀ turns, 2 * (body ++ others).length + 1 ≤ turns →
      decodeNodeContent mallocZero stringTable turns depth parent
          ⟨body ++ (others ++ wbxmlEnd :: behind), child.codePage, count⟩ =
        .ok ({ parent with children := parent.children ++ child :: rest },
          ⟨behind, after, count + child.size + sizeAll rest⟩) := by
    rintro (_ | turns) enough
    · simp at enough
    · have decoded := read (others ++ wbxmlEnd :: behind) turns (by simp at enough; omega)
      have front : (⟨body ++ (others ++ wbxmlEnd :: behind), child.codePage, count⟩ :
          WbxmlDecodeContext).rest = tag :: (tail ++ (others ++ wbxmlEnd :: behind)) := by
        rw [shape, List.cons_append]
      have nonempty : 1 ≤ body.length := by simp [shape]
      rw [decodeNodeContent_child starts front decoded, readRest _ behind turns (by simp at enough; omega)]
      simp [mailactivesyncWbxmlNodeAddChild]
  by_cases same : child.codePage = page
  · have noSwitch : encodeSwitch page child.codePage = [] := by simp [encodeSwitch, same]
    rw [noSwitch, List.nil_append] at enough ⊢
    rw [List.append_assoc, ← same]
    exact tagged turns enough
  · have switched : encodeSwitch page child.codePage = [wbxmlSwitchPage, child.codePage] := by
      simp [encodeSwitch, same]
    rw [switched] at enough ⊢
    cases turns with
    | zero => simp at enough
    | succ turns =>
        have bytes : [wbxmlSwitchPage, child.codePage] ++ body ++ others ++ wbxmlEnd :: behind =
            wbxmlSwitchPage :: child.codePage :: (body ++ (others ++ wbxmlEnd :: behind)) := by simp
        rw [bytes, decodeNodeContent_switch]
        exact tagged turns (by simp at enough ⊢; omega)

mutual

/-- Every readable tree within the limits is restored. -/
theorem nodeRestored (node : WbxmlNode) (readable : node.Everywhere (Readable mallocZero)) {depth count : Nat}
    (shallow : depth + node.height ≤ wbxmlMaxDepth) (few : count + node.size ≤ wbxmlMaxNodeCount) :
    ∃ body after, NodeRestored mallocZero stringTable depth count node body after := by
  match node with
  | ⟨codePage, token, text, opaqueData, children⟩ =>
      rw [WbxmlNode.Everywhere] at readable
      rw [WbxmlNode.height] at shallow
      rw [WbxmlNode.size] at few
      cases content : nodeHasContent ⟨codePage, token, text, opaqueData, children⟩ with
      | false => exact ⟨_, _, NodeRestored.leaf readable.1 content (by omega) (by omega)⟩
      | true =>
          obtain ⟨inner, after, restored⟩ := childrenRestored children readable.2 codePage shallow
            (show count + 1 + sizeAll children ≤ wbxmlMaxNodeCount by omega)
          obtain ⟨body, element⟩ :=
            NodeRestored.element readable.1 content (by omega) (by omega) restored
          exact ⟨body, after, element⟩

theorem childrenRestored (children : List WbxmlNode)
    (readable : everywhereAll (Readable mallocZero) children) (page : UInt8) {depth count : Nat}
    (shallow : depth + heightAll children ≤ wbxmlMaxDepth)
    (few : count + sizeAll children ≤ wbxmlMaxNodeCount) :
    ∃ bytes after, ChildrenRestored mallocZero stringTable depth count page children bytes after := by
  match children with
  | [] =>
      refine ⟨[], page, rfl, ?_⟩
      rintro parent rest (_ | turns) enough
      · simp at enough
      · rw [List.nil_append, decodeNodeContent_end]
        cases parent
        simp [sizeAll]
  | child :: rest =>
      rw [everywhereAll] at readable
      rw [heightAll] at shallow
      rw [sizeAll] at few
      obtain ⟨body, middle, first⟩ := nodeRestored child readable.1
        (show depth + 1 + child.height ≤ wbxmlMaxDepth by omega)
        (show count + child.size ≤ wbxmlMaxNodeCount by omega)
      obtain ⟨others, after, later⟩ := childrenRestored rest readable.2 middle
        (show depth + heightAll rest ≤ wbxmlMaxDepth by omega)
        (show count + child.size + sizeAll rest ≤ wbxmlMaxNodeCount by omega)
      exact ⟨_, after, ChildrenRestored.cons first later page⟩

end

theorem NodeRestored.root {node : WbxmlNode} {body : List UInt8} {after : UInt8}
    (restored : NodeRestored mallocZero stringTable 0 0 node body after) {turns : Nat}
    (enough : 2 * body.length ≤ turns) :
    decodeNode mallocZero stringTable turns 0 ⟨encodeSwitch 0 node.codePage ++ body, 0, 0⟩ =
      .ok (node, ⟨[], after, node.size⟩) := by
  obtain ⟨-, ⟨tag, tail, shape, starts⟩, read⟩ := restored
  have decoded := read [] turns enough
  rw [List.append_nil, Nat.zero_add] at decoded
  by_cases same : node.codePage = 0
  · rw [same] at decoded
    simpa [encodeSwitch, same] using decoded
  · cases turns with
    | zero => simp [shape] at enough
    | succ turns =>
        have skipped : readTag 0 (encodeSwitch 0 node.codePage ++ body) = readTag node.codePage body := by
          conv_lhs => rw [encodeSwitch, if_pos same]
          conv_lhs => unfold readTag
          simp
        rw [decodeNode] at decoded ⊢
        simp only [skipped]
        exact decoded

end RoundTrip

theorem decode_encode_of_restored {mallocZero : Bool} {document : WbxmlDocument} {root : WbxmlNode}
    (rooted : document.root = some root)
    {body : List UInt8} {after : UInt8} (restored : NodeRestored mallocZero [] 0 0 root body after) :
    ∃ bytes, mailactivesyncWbxmlEncode document = .ok bytes ∧
      mailactivesyncWbxmlDecode mallocZero bytes = .ok document := by
  obtain ⟨version, publicId, charset, root⟩ := document
  cases rooted
  obtain ⟨idBytes, idSpelled, -, idRead⟩ := appendMbUint_read publicId
  obtain ⟨charsetBytes, charsetSpelled, -, charsetRead⟩ := appendMbUint_read charset
  have tableSpelled : appendMbUint 0 = .ok [0] := by decide
  have tableRead : ∀ rest, readMbUint ([0] ++ rest) = .ok (0, rest) := by
    intro rest
    simp [readMbUint, readMbUintFrom]
  refine ⟨version :: (idBytes ++ charsetBytes ++ [0] ++ (encodeSwitch 0 root.codePage ++ body)), ?_, ?_⟩
  · simp only [mailactivesyncWbxmlEncode, idSpelled, charsetSpelled, tableSpelled, restored.1]
    rfl
  · have decoded := restored.root
      (show 2 * body.length ≤ decodeTurns (encodeSwitch 0 root.codePage ++ body) by simp [decodeTurns])
    simp only [mailactivesyncWbxmlDecode, List.append_assoc, bind, Except.bind, idRead, charsetRead, tableRead,
      List.take_zero, List.drop_zero, decoded, Nat.not_lt_zero, if_false, ne_eq, not_true_eq_false,
      UInt32.ofNat_toNat]

/-- The documents of the encoder: element tokens, NUL-free text and non-empty data
within the limits of the decoder, and not too deep or too many. -/
structure Encodable (node : WbxmlNode) : Prop where
  element : 5 ≤ node.token.toNat ∧ node.token.toNat ≤ 0x3F
  text : ∀ text, node.text = some text → NulFree text ∧ text.length ≤ wbxmlMaxStringSize
  data : ∀ data, node.opaqueData = some data → data ≠ [] ∧ data.length ≤ wbxmlMaxOpaqueSize

mutual

theorem WbxmlNode.Everywhere.imp {first second : WbxmlNode → Prop} (implies : ∀ node, first node → second node)
    (node : WbxmlNode) (holds : node.Everywhere first) : node.Everywhere second := by
  match node with
  | ⟨codePage, token, text, opaqueData, children⟩ =>
      rw [WbxmlNode.Everywhere] at holds ⊢
      exact ⟨implies _ holds.1, everywhereAll.imp implies children holds.2⟩

theorem everywhereAll.imp {first second : WbxmlNode → Prop} (implies : ∀ node, first node → second node)
    (children : List WbxmlNode) (holds : everywhereAll first children) : everywhereAll second children := by
  match children with
  | [] => trivial
  | child :: rest =>
      rw [everywhereAll] at holds ⊢
      exact ⟨WbxmlNode.Everywhere.imp implies child holds.1, everywhereAll.imp implies rest holds.2⟩

end

theorem Encodable.readable {mallocZero : Bool} (node : WbxmlNode) (encodable : Encodable node) :
    Readable mallocZero node where
  positive := by have := encodable.element; omega
  masked := by have := encodable.element; omega
  tagged := .inl encodable.element.1
  text := encodable.text
  data := fun data isData =>
    ⟨(encodable.data data isData).2, fun empty => absurd empty (encodable.data data isData).1⟩

/-- Decoding undoes encoding: any mix of text, data and children at every node, on any
code pages. -/
theorem mailactivesyncWbxml_decode_encode (mallocZero : Bool) (document : WbxmlDocument) {root : WbxmlNode}
    (rooted : document.root = some root) (encodable : root.Everywhere Encodable)
    (shallow : root.height ≤ wbxmlMaxDepth) (few : root.size ≤ wbxmlMaxNodeCount) :
    ∃ bytes, mailactivesyncWbxmlEncode document = .ok bytes ∧
      mailactivesyncWbxmlDecode mallocZero bytes = .ok document := by
  have restored : ∃ body after, NodeRestored mallocZero [] 0 0 root body after :=
    nodeRestored root (encodable.imp Encodable.readable) (by omega) (by omega)
  obtain ⟨body, after, restored⟩ := restored
  exact decode_encode_of_restored rooted restored

/-- Text, data and a child on another code page under one root. -/
theorem mailactivesyncWbxml_decode_encode_mixed :
    let child : WbxmlNode := { codePage := 4, token := 0x3F, text := some [] }
    let root : WbxmlNode :=
      { codePage := 3, token := 5, text := some [ascii 'a'], opaqueData := some [0, 1], children := [child, child] }
    root.Everywhere Encodable ∧ ∃ bytes,
      mailactivesyncWbxmlEncode ⟨3, 0xFFFFFFFF, 0x6A, some root⟩ = .ok bytes ∧
        mailactivesyncWbxmlDecode true bytes = .ok ⟨3, 0xFFFFFFFF, 0x6A, some root⟩ := by
  intro child root
  have childEncodable : Encodable child :=
    ⟨by decide, by simp [child, NulFree], by simp [child]⟩
  have rootEncodable : Encodable root := by
    refine ⟨by decide, ?_, ?_⟩
    · intro text isText
      cases isText
      exact ⟨by decide, by decide⟩
    · intro data isData
      cases isData
      exact ⟨by decide, by decide⟩
  have below : child.Everywhere Encodable := ⟨childEncodable, trivial⟩
  have encodable : root.Everywhere Encodable := ⟨rootEncodable, below, below, trivial⟩
  exact ⟨encodable, mailactivesyncWbxml_decode_encode true _ rfl encodable (by decide) (by decide)⟩

end Etpan.Activesync
