import Etpan.Activesync.WbxmlRoundTrip

namespace Etpan.Activesync

open Etpan.Data

/-! Which accepted documents survive being encoded and decoded again. -/

section Rule

variable {mallocZero : Bool} {stringTable : List UInt8}

def TextItem (stringTable : List UInt8) (byte : UInt8) (rest text after : List UInt8) : Prop :=
  (byte = wbxmlStrI ∧ readInlineString rest = some (text, after)) ∨
    (byte = wbxmlStrT ∧ readTableString stringTable rest = some (text, after))

/-- A property of decoded nodes and one of decoded content that every step of the decoder keeps. -/
structure DecodeRule (mallocZero : Bool) (stringTable : List UInt8)
    (Node : Nat → WbxmlDecodeContext → WbxmlNode → WbxmlDecodeContext → Prop)
    (Content : Nat → WbxmlNode → WbxmlDecodeContext → WbxmlNode → WbxmlDecodeContext → Prop) : Prop where
  leaf : ∀ {depth ctx byte rest page}, depth ≤ wbxmlMaxDepth →
    readTag ctx.currentCodePage ctx.rest = .ok (byte, rest, page) → tagRefused byte = false →
    ctx.nodeCount + 1 ≤ wbxmlMaxNodeCount → byte &&& wbxmlHasContent = 0 →
    Node depth ctx { codePage := page, token := byte &&& wbxmlTokenMask } ⟨rest, page, ctx.nodeCount + 1⟩
  element : ∀ {depth ctx byte rest page node after}, depth ≤ wbxmlMaxDepth →
    readTag ctx.currentCodePage ctx.rest = .ok (byte, rest, page) → tagRefused byte = false →
    ctx.nodeCount + 1 ≤ wbxmlMaxNodeCount → byte &&& wbxmlHasContent ≠ 0 →
    Content depth { codePage := page, token := byte &&& wbxmlTokenMask } ⟨rest, page, ctx.nodeCount + 1⟩ node
      after →
    Node depth ctx node after
  ending : ∀ {depth node rest page count},
    Content depth node ⟨wbxmlEnd :: rest, page, count⟩ node ⟨rest, page, count⟩
  switch : ∀ {depth node rest page codePage count final after},
    Content depth node ⟨rest, codePage, count⟩ final after →
    Content depth node ⟨wbxmlSwitchPage :: codePage :: rest, page, count⟩ final after
  text : ∀ {depth node node' byte rest text behind page count final after},
    TextItem stringTable byte rest text behind → appendNodeText node text = .ok node' →
    Content depth node' ⟨behind, page, count⟩ final after →
    Content depth node ⟨byte :: rest, page, count⟩ final after
  data : ∀ {depth node rest length behind page count final after},
    readMbUint rest = .ok (length, behind) → length ≤ wbxmlMaxOpaqueSize → length ≤ behind.length →
    Content depth (setNodeOpaque mallocZero node (behind.take length)) ⟨behind.drop length, page, count⟩ final
      after →
    Content depth node ⟨wbxmlOpaque :: rest, page, count⟩ final after
  child : ∀ {depth node ctx byte rest child middle final after}, StartsChild byte → ctx.rest = byte :: rest →
    Node (depth + 1) ctx child middle →
    Content depth (mailactivesyncWbxmlNodeAddChild node child) middle final after →
    Content depth node ctx final after

variable {Node : Nat → WbxmlDecodeContext → WbxmlNode → WbxmlDecodeContext → Prop}
  {Content : Nat → WbxmlNode → WbxmlDecodeContext → WbxmlNode → WbxmlDecodeContext → Prop}

theorem DecodeRule.nodeStep (rule : DecodeRule mallocZero stringTable Node Content) {turns : Nat}
    (content : ∀ depth node ctx final after,
      decodeNodeContent mallocZero stringTable turns depth node ctx = .ok (final, after) →
        Content depth node ctx final after)
    {depth : Nat} {ctx after : WbxmlDecodeContext} {node : WbxmlNode}
    (decoded : decodeNode mallocZero stringTable (turns + 1) depth ctx = .ok (node, after)) :
    Node depth ctx node after := by
  simp only [decodeNode] at decoded
  split at decoded
  · contradiction
  next shallow =>
  split at decoded
  · contradiction
  next byte rest page tag =>
  split at decoded
  · contradiction
  next accepted =>
  split at decoded
  · contradiction
  next few =>
  have accepted : tagRefused byte = false := by simpa using accepted
  split at decoded
  · next flag =>
      exact rule.element (by omega) tag accepted (by omega) flag (content _ _ _ _ _ decoded)
  · next flag =>
      cases decoded
      exact rule.leaf (by omega) tag accepted (by omega) (by simpa using flag)

theorem DecodeRule.contentStep (rule : DecodeRule mallocZero stringTable Node Content) {turns : Nat}
    (nodes : ∀ depth ctx node after,
      decodeNode mallocZero stringTable turns depth ctx = .ok (node, after) → Node depth ctx node after)
    (content : ∀ depth node ctx final after,
      decodeNodeContent mallocZero stringTable turns depth node ctx = .ok (final, after) →
        Content depth node ctx final after)
    {depth : Nat} {ctx after : WbxmlDecodeContext} {node final : WbxmlNode}
    (decoded : decodeNodeContent mallocZero stringTable (turns + 1) depth node ctx = .ok (final, after)) :
    Content depth node ctx final after := by
  obtain ⟨bytes, page, count⟩ := ctx
  simp only [decodeNodeContent] at decoded
  split at decoded
  · contradiction
  next byte rest =>
  by_cases isEnd : byte = wbxmlEnd
  · subst isEnd
    rw [if_pos rfl] at decoded
    cases decoded
    exact rule.ending
  rw [if_neg isEnd] at decoded
  by_cases isSwitch : byte = wbxmlSwitchPage
  · subst isSwitch
    rw [if_pos rfl] at decoded
    split at decoded
    · contradiction
    · exact rule.switch (content _ _ _ _ _ decoded)
  rw [if_neg isSwitch] at decoded
  by_cases isStrI : byte = wbxmlStrI
  · rw [if_pos isStrI] at decoded
    split at decoded
    · contradiction
    next text behind read =>
    split at decoded
    · contradiction
    next appended => exact rule.text (.inl ⟨isStrI, read⟩) appended (content _ _ _ _ _ decoded)
  rw [if_neg isStrI] at decoded
  by_cases isStrT : byte = wbxmlStrT
  · rw [if_pos isStrT] at decoded
    split at decoded
    · contradiction
    next text behind read =>
    split at decoded
    · contradiction
    next appended => exact rule.text (.inr ⟨isStrT, read⟩) appended (content _ _ _ _ _ decoded)
  rw [if_neg isStrT] at decoded
  by_cases isOpaque : byte = wbxmlOpaque
  · subst isOpaque
    rw [if_pos rfl] at decoded
    split at decoded
    · contradiction
    next length behind read =>
    split at decoded
    · contradiction
    next allowed =>
    split at decoded
    · contradiction
    next present => exact rule.data read (by omega) (by omega) (content _ _ _ _ _ decoded)
  rw [if_neg isOpaque] at decoded
  split at decoded
  · contradiction
  next child middle inner =>
    exact rule.child ⟨isEnd, isSwitch, isStrI, isStrT, isOpaque⟩ rfl (nodes _ _ _ _ inner)
      (content _ _ _ _ _ decoded)

theorem DecodeRule.accepted (rule : DecodeRule mallocZero stringTable Node Content) (turns : Nat) :
    (∀ depth ctx node after,
      decodeNode mallocZero stringTable turns depth ctx = .ok (node, after) → Node depth ctx node after) ∧
    (∀ depth node ctx final after,
      decodeNodeContent mallocZero stringTable turns depth node ctx = .ok (final, after) →
        Content depth node ctx final after) := by
  induction turns with
  | zero =>
      constructor
      · intro depth ctx node after decoded
        simp [decodeNode] at decoded
      · intro depth node ctx final after decoded
        simp [decodeNodeContent] at decoded
  | succ turns ih =>
      exact ⟨fun _ _ _ _ decoded => rule.nodeStep ih.2 decoded,
        fun _ _ _ _ _ decoded => rule.contentStep ih.1 ih.2 decoded⟩

end Rule

theorem readInlineString_some {rest text behind : List UInt8} (read : readInlineString rest = some (text, behind)) :
    splitNul rest = some (text, behind) ∧ text.length ≤ wbxmlMaxStringSize := by
  unfold readInlineString at read
  split at read
  · contradiction
  next split =>
  split at read
  · contradiction
  · cases read
    exact ⟨split, by omega⟩

theorem readTableString_some {stringTable rest text behind : List UInt8} (read : readTableString stringTable rest = some (text, behind)) :
    (∃ offset, offset < stringTable.length ∧ readMbUint rest = .ok (offset, behind)) ∧ NulFree text ∧ text.length ≤ wbxmlMaxStringSize := by
  unfold readTableString at read
  split at read
  · contradiction
  next offset after number =>
  split at read
  · contradiction
  split at read
  · contradiction
  next split =>
  split at read
  · contradiction
  · cases read
    exact ⟨⟨offset, by omega, number⟩, (splitNul_some split).2, by omega⟩

def switchCost (page codePage : UInt8) : Nat := if codePage ≠ page then 2 else 0

theorem switchCost_le (page codePage : UInt8) : switchCost page codePage ≤ 2 := by
  unfold switchCost
  split <;> omega

theorem switchCost_self (page : UInt8) : switchCost page page = 0 := by simp [switchCost]

theorem readTag_length {page : UInt8} {bytes : List UInt8} {byte : UInt8} {rest : List UInt8} {after : UInt8}
    (read : readTag page bytes = .ok (byte, rest, after)) (last : UInt8) :
    rest.length + 1 + switchCost last after ≤ bytes.length + switchCost last page := by
  fun_induction readTag page bytes with
  | case1 => contradiction
  | case2 => contradiction
  | case3 page codePage rest' ih =>
      have spent := ih read
      have bound := switchCost_le last codePage
      rw [List.length_cons, List.length_cons]
      omega
  | case4 page byte' rest' plain =>
      cases read
      rw [List.length_cons]

theorem readMbUintFrom_length {room result value count : Nat} {rest after : List UInt8}
    (small : result < 128 ^ count) (read : readMbUintFrom room result rest = .ok (value, after)) :
    ∃ used, rest.length = after.length + (used + 1) ∧ value < 128 ^ (count + (used + 1)) := by
  induction room generalizing result rest count with
  | zero => simp [readMbUintFrom] at read
  | succ room ih =>
      cases rest with
      | nil => simp [readMbUintFrom] at read
      | cons byte rest =>
          have grown : result * 128 + byte.toNat % 128 < 128 ^ (count + 1) := by
            rw [Nat.pow_succ]
            omega
          rw [readMbUintFrom] at read
          split at read
          · contradiction
          split at read
          · cases read
            exact ⟨0, by simp, grown⟩
          · obtain ⟨used, length, bound⟩ := ih grown read
            refine ⟨used + 1, by rw [List.length_cons, length]; omega, ?_⟩
            rwa [show count + (used + 1 + 1) = count + 1 + (used + 1) by omega]

theorem readTag_shorter {page : UInt8} {bytes : List UInt8} {byte : UInt8} {rest : List UInt8} {after : UInt8}
    (read : readTag page bytes = .ok (byte, rest, after)) : rest.length < bytes.length := by
  have spent := readTag_length read page
  rw [switchCost_self] at spent
  omega

theorem readMbUint_shorter {value : Nat} {rest after : List UInt8} (read : readMbUint rest = .ok (value, after)) :
    after.length < rest.length := by
  obtain ⟨used, length, -⟩ := readMbUintFrom_length (show 0 < 128 ^ 0 by decide) read
  omega

theorem TextItem.shorter {stringTable : List UInt8} {byte : UInt8} {rest text behind : List UInt8}
    (item : TextItem stringTable byte rest text behind) : behind.length < rest.length := by
  rcases item with ⟨-, read⟩ | ⟨-, read⟩
  · have spelled := (splitNul_some (readInlineString_some read).1).1
    rw [spelled, List.length_append, List.length_cons]
    omega
  · obtain ⟨⟨offset, -, number⟩, -⟩ := readTableString_some read
    exact readMbUint_shorter number

theorem decode_shorter (mallocZero : Bool) (stringTable : List UInt8) :
    DecodeRule mallocZero stringTable
      (fun _ ctx _ after => after.rest.length < ctx.rest.length)
      (fun _ _ ctx _ after => after.rest.length < ctx.rest.length) where
  leaf := fun _ tag _ _ _ => readTag_shorter tag
  element := fun _ tag _ _ _ content => content.trans (readTag_shorter tag)
  ending := by simp
  switch := by
    intro depth node rest page codePage count final after content
    dsimp only at content ⊢
    rw [List.length_cons, List.length_cons]
    omega
  text := by
    intro depth node node' byte rest text behind page count final after item appended content
    have less := item.shorter
    dsimp only at content ⊢
    rw [List.length_cons]
    omega
  data := by
    intro depth node rest length behind page count final after read allowed present content
    have less := readMbUint_shorter read
    dsimp only at content ⊢
    rw [List.length_drop] at content
    rw [List.length_cons]
    omega
  child := fun _ _ inner content => content.trans inner

section Turns

variable {mallocZero : Bool} {stringTable : List UInt8} {first second depth : Nat}

theorem decodeNode_congr {ctx : WbxmlDecodeContext}
    (content : ∀ node after, after.rest.length < ctx.rest.length →
      decodeNodeContent mallocZero stringTable first depth node after =
        decodeNodeContent mallocZero stringTable second depth node after) :
    decodeNode mallocZero stringTable (first + 1) depth ctx =
      decodeNode mallocZero stringTable (second + 1) depth ctx := by
  simp only [decodeNode]
  cases tag : readTag ctx.currentCodePage ctx.rest with
  | error error => rfl
  | ok found =>
      obtain ⟨byte, rest, page⟩ := found
      dsimp only
      rw [content _ ⟨rest, page, ctx.nodeCount + 1⟩ (readTag_shorter tag)]

theorem decodeNodeContent_congr {node : WbxmlNode} {ctx : WbxmlDecodeContext}
    (nodes : decodeNode mallocZero stringTable first (depth + 1) ctx =
      decodeNode mallocZero stringTable second (depth + 1) ctx)
    (content : ∀ node after, after.rest.length < ctx.rest.length →
      decodeNodeContent mallocZero stringTable first depth node after =
        decodeNodeContent mallocZero stringTable second depth node after) :
    decodeNodeContent mallocZero stringTable (first + 1) depth node ctx =
      decodeNodeContent mallocZero stringTable (second + 1) depth node ctx := by
  obtain ⟨bytes, page, count⟩ := ctx
  cases bytes with
  | nil => simp only [decodeNodeContent]
  | cons byte rest =>
      dsimp only [List.length_cons] at content
      simp only [decodeNodeContent]
      split
      · rfl
      split
      · split
        · rfl
        · exact content _ _ (by dsimp only [List.length_cons]; omega)
      split
      · next isStrI =>
          cases read : readInlineString rest with
          | none => rfl
          | some item =>
              have isText : TextItem stringTable byte rest item.1 item.2 := .inl ⟨isStrI, read⟩
              have less := isText.shorter
              dsimp only
              split
              · rfl
              · exact content _ _ (by dsimp only; omega)
      split
      · next isStrT =>
          cases read : readTableString stringTable rest with
          | none => rfl
          | some item =>
              have isText : TextItem stringTable byte rest item.1 item.2 := .inr ⟨isStrT, read⟩
              have less := isText.shorter
              dsimp only
              split
              · rfl
              · exact content _ _ (by dsimp only; omega)
      split
      · cases read : readMbUint rest with
        | error error => rfl
        | ok number =>
            have less := readMbUint_shorter read
            dsimp only
            split
            · rfl
            split
            · rfl
            · exact content _ _ (by dsimp only; rw [List.length_drop]; omega)
      · rw [nodes]
        cases inner : decodeNode mallocZero stringTable second (depth + 1) ⟨byte :: rest, page, count⟩ with
        | error error => rfl
        | ok found =>
            have less := ((decode_shorter mallocZero stringTable).accepted _).1 _ _ _ _ inner
            exact content _ _ less

end Turns

theorem decode_turns (mallocZero : Bool) (stringTable : List UInt8) (size : Nat) :
    (∀ depth ctx first second, ctx.rest.length ≤ size → 2 * size ≤ first → 2 * size ≤ second →
      decodeNode mallocZero stringTable first depth ctx = decodeNode mallocZero stringTable second depth ctx) ∧
    (∀ depth node ctx first second, ctx.rest.length ≤ size → 2 * size + 1 ≤ first → 2 * size + 1 ≤ second →
      decodeNodeContent mallocZero stringTable first depth node ctx =
        decodeNodeContent mallocZero stringTable second depth node ctx) := by
  have atEnd : ∀ turns depth ctx, ctx.rest = [] →
      decodeNode mallocZero stringTable turns depth ctx = .error .parse := by
    intro turns depth ctx empty
    cases turns with
    | zero => rw [decodeNode]
    | succ turns => simp [decodeNode, empty, readTag]
  induction size with
  | zero =>
      have nodes : ∀ depth ctx first second, ctx.rest.length ≤ 0 →
          decodeNode mallocZero stringTable first depth ctx =
            decodeNode mallocZero stringTable second depth ctx := by
        intro depth ctx first second short
        have empty : ctx.rest = [] := List.length_eq_zero_iff.mp (by omega)
        rw [atEnd first depth ctx empty, atEnd second depth ctx empty]
      refine ⟨fun depth ctx first second short _ _ => nodes depth ctx first second short, ?_⟩
      intro depth node ctx first second short enoughFirst enoughSecond
      obtain ⟨first, rfl⟩ := Nat.exists_eq_succ_of_ne_zero (Nat.ne_of_gt enoughFirst)
      obtain ⟨second, rfl⟩ := Nat.exists_eq_succ_of_ne_zero (Nat.ne_of_gt enoughSecond)
      exact decodeNodeContent_congr (nodes _ _ _ _ short) fun _ _ less => by omega
  | succ size ih =>
      have nodes : ∀ depth ctx first second, ctx.rest.length ≤ size + 1 → 2 * (size + 1) ≤ first →
          2 * (size + 1) ≤ second → decodeNode mallocZero stringTable first depth ctx =
            decodeNode mallocZero stringTable second depth ctx := by
        intro depth ctx first second short enoughFirst enoughSecond
        obtain ⟨first, rfl⟩ := Nat.exists_eq_succ_of_ne_zero (show first ≠ 0 by omega)
        obtain ⟨second, rfl⟩ := Nat.exists_eq_succ_of_ne_zero (show second ≠ 0 by omega)
        exact decodeNode_congr fun node after less =>
          ih.2 depth node after first second (by omega) (by omega) (by omega)
      refine ⟨nodes, ?_⟩
      intro depth node ctx first second short enoughFirst enoughSecond
      obtain ⟨first, rfl⟩ := Nat.exists_eq_succ_of_ne_zero (show first ≠ 0 by omega)
      obtain ⟨second, rfl⟩ := Nat.exists_eq_succ_of_ne_zero (show second ≠ 0 by omega)
      exact decodeNodeContent_congr (nodes _ _ _ _ short (by omega) (by omega)) fun node after less =>
        ih.2 depth node after first second (by omega) (by omega) (by omega)

/-! ### What a decoded tree keeps within -/

theorem everywhereAll_append {property : WbxmlNode → Prop} {left right : List WbxmlNode} :
    everywhereAll property (left ++ right) ↔ everywhereAll property left ∧ everywhereAll property right := by
  induction left with
  | nil => simp [everywhereAll]
  | cons child left ih => simp [everywhereAll, ih, and_assoc]

theorem sizeAll_append (left right : List WbxmlNode) :
    sizeAll (left ++ right) = sizeAll left + sizeAll right := by
  induction left with
  | nil => simp [sizeAll]
  | cons child left ih =>
      simp only [List.cons_append, sizeAll, ih]
      omega

theorem heightAll_append (left right : List WbxmlNode) :
    heightAll (left ++ right) = max (heightAll left) (heightAll right) := by
  induction left with
  | nil => simp [heightAll]
  | cons child left ih => simp [heightAll, ih, max_assoc]

theorem everywhere_iff {property : WbxmlNode → Prop} {node : WbxmlNode} :
    node.Everywhere property ↔ property node ∧ everywhereAll property node.children := by
  cases node
  rw [WbxmlNode.Everywhere]

theorem size_eq (node : WbxmlNode) : node.size = sizeAll node.children + 1 := by
  cases node
  rw [WbxmlNode.size]

theorem height_eq (node : WbxmlNode) : node.height = heightAll node.children := by
  cases node
  rw [WbxmlNode.height]

theorem nodeHasContent_false {node : WbxmlNode} :
    nodeHasContent node = false ↔ node.text = none ∧ node.opaqueData = none ∧ node.children = [] := by
  simp [nodeHasContent, and_assoc]

/-- A node as the decoder leaves it: all of `Readable` but the guard against control octets. -/
structure Stored (mallocZero : Bool) (node : WbxmlNode) : Prop where
  positive : 1 ≤ node.token.toNat
  masked : node.token.toNat < 64
  text : ∀ text, node.text = some text → NulFree text ∧ text.length ≤ wbxmlMaxStringSize
  data : ∀ data, node.opaqueData = some data → data.length ≤ wbxmlMaxOpaqueSize ∧
    (data = [] → mallocZero = true)

/-- The guard: a token that is no control octet, or content to mark it. -/
def TagSafe (node : WbxmlNode) : Prop :=
  5 ≤ node.token.toNat ∨ nodeHasContent node = true

theorem token_facts {byte : UInt8} (accepted : tagRefused byte = false) :
    1 ≤ (byte &&& wbxmlTokenMask).toNat ∧ (byte &&& wbxmlTokenMask).toNat < 64 ∧
      (byte &&& wbxmlHasContent = 0 → 5 ≤ (byte &&& wbxmlTokenMask).toNat) ∧
      (byte &&& wbxmlHasContent ≠ 0 →
        ((byte &&& wbxmlTokenMask).toNat < 5 ↔ 0x41 ≤ byte.toNat ∧ byte.toNat ≤ 0x44)) ∧
      StartsChild byte := by
  have every : ∀ byte : UInt8, tagRefused byte = false →
      1 ≤ (byte &&& wbxmlTokenMask).toNat ∧ (byte &&& wbxmlTokenMask).toNat < 64 ∧
        (byte &&& wbxmlHasContent = 0 → 5 ≤ (byte &&& wbxmlTokenMask).toNat) ∧
        (byte &&& wbxmlHasContent ≠ 0 →
          ((byte &&& wbxmlTokenMask).toNat < 5 ↔ 0x41 ≤ byte.toNat ∧ byte.toNat ≤ 0x44)) ∧
        StartsChild byte := by
    apply forall_octet
    decide +kernel
  exact every byte accepted

theorem Stored.fresh (mallocZero : Bool) {byte : UInt8} (accepted : tagRefused byte = false) (page : UInt8) :
    Stored mallocZero { codePage := page, token := byte &&& wbxmlTokenMask } := by
  obtain ⟨positive, masked, -⟩ := token_facts accepted
  exact ⟨positive, masked, by simp, by simp⟩

theorem appendNodeText_kept {node node' : WbxmlNode} {text : List UInt8}
    (appended : appendNodeText node text = .ok node') :
    node'.codePage = node.codePage ∧ node'.token = node.token ∧ node'.text.isSome = true ∧
      node'.opaqueData = node.opaqueData ∧ node'.children = node.children := by
  unfold appendNodeText at appended
  split at appended
  · cases appended
    exact ⟨rfl, rfl, rfl, rfl, rfl⟩
  · split at appended
    · contradiction
    · cases appended
      exact ⟨rfl, rfl, rfl, rfl, rfl⟩

theorem Stored.appendText {mallocZero : Bool} {stringTable : List UInt8} {node node' : WbxmlNode}
    (stored : Stored mallocZero node) {byte : UInt8} {rest text behind : List UInt8}
    (item : TextItem stringTable byte rest text behind) (appended : appendNodeText node text = .ok node') :
    Stored mallocZero node' := by
  have fresh : NulFree text ∧ text.length ≤ wbxmlMaxStringSize := by
    rcases item with ⟨-, read⟩ | ⟨-, read⟩
    · obtain ⟨split, short⟩ := readInlineString_some read
      exact ⟨(splitNul_some split).2, short⟩
    · exact (readTableString_some read).2
  unfold appendNodeText at appended
  split at appended
  · cases appended
    refine ⟨stored.positive, stored.masked, ?_, stored.data⟩
    intro other isText
    cases isText
    exact fresh
  · next old isOld =>
      split at appended
      · contradiction
      · cases appended
        refine ⟨stored.positive, stored.masked, ?_, stored.data⟩
        intro other isText
        cases isText
        exact ⟨(stored.text old isOld).1.append fresh.1, by rw [List.length_append]; omega⟩

theorem Stored.setData {mallocZero : Bool} {node : WbxmlNode} (stored : Stored mallocZero node)
    {data : List UInt8} (fits : data.length ≤ wbxmlMaxOpaqueSize) :
    Stored mallocZero (setNodeOpaque mallocZero node data) := by
  refine ⟨stored.positive, stored.masked, stored.text, ?_⟩
  intro other isData
  simp only [setNodeOpaque] at isData
  split at isData
  · contradiction
  · next allocated =>
      cases isData
      refine ⟨fits, fun empty => ?_⟩
      cases mallocZero with
      | true => rfl
      | false => exact absurd ⟨empty, rfl⟩ allocated

/-- Every decoded tree is stored within the limits of the decoder. -/
theorem decode_stored (mallocZero : Bool) (stringTable : List UInt8) :
    DecodeRule mallocZero stringTable
      (fun depth ctx node after => node.Everywhere (Stored mallocZero) ∧ depth + node.height ≤ wbxmlMaxDepth ∧
        after.nodeCount = ctx.nodeCount + node.size ∧ after.nodeCount ≤ wbxmlMaxNodeCount)
      (fun depth node ctx final after => Stored mallocZero node → depth + heightAll node.children ≤ wbxmlMaxDepth →
        ctx.nodeCount ≤ wbxmlMaxNodeCount →
        Stored mallocZero final ∧ (everywhereAll (Stored mallocZero) node.children →
            everywhereAll (Stored mallocZero) final.children) ∧
          depth + heightAll final.children ≤ wbxmlMaxDepth ∧
          after.nodeCount + sizeAll node.children = ctx.nodeCount + sizeAll final.children ∧
          after.nodeCount ≤ wbxmlMaxNodeCount) where
  leaf := by
    intro depth ctx byte rest page shallow tag accepted few flag
    rw [everywhere_iff, height_eq, size_eq]
    exact ⟨⟨Stored.fresh mallocZero accepted page, trivial⟩, shallow, rfl, few⟩
  element := by
    intro depth ctx byte rest page node after shallow tag accepted few flag content
    obtain ⟨stored, everywhere, deep, counted, many⟩ :=
      content (Stored.fresh mallocZero accepted page) shallow few
    rw [everywhere_iff, height_eq, size_eq]
    dsimp only at counted
    rw [sizeAll] at counted
    exact ⟨⟨stored, everywhere trivial⟩, deep, by omega, many⟩
  ending := by
    intro depth node rest page count stored shallow few
    exact ⟨stored, id, shallow, rfl, few⟩
  switch := id
  text := by
    intro depth node node' byte rest text behind page count final after item appended content stored shallow few
    obtain ⟨-, -, -, -, children⟩ := appendNodeText_kept appended
    rw [← children] at shallow ⊢
    exact content (stored.appendText item appended) shallow few
  data := by
    intro depth node rest length behind page count final after read allowed present content stored shallow few
    exact content (stored.setData ((List.length_take_le _ _).trans allowed)) shallow few
  child := by
    intro depth node ctx byte rest child middle final after starts front inner content stored shallow few
    obtain ⟨childStored, childShallow, counted, childFew⟩ := inner
    have added : (mailactivesyncWbxmlNodeAddChild node child).children = node.children ++ [child] := rfl
    have stored' : Stored mallocZero (mailactivesyncWbxmlNodeAddChild node child) :=
      ⟨stored.positive, stored.masked, stored.text, stored.data⟩
    have height : depth + heightAll (node.children ++ [child]) ≤ wbxmlMaxDepth := by
      rw [heightAll_append, heightAll, heightAll]
      omega
    obtain ⟨finalStored, everywhere, finalShallow, total, finalFew⟩ := content stored' height childFew
    rw [added] at everywhere total
    rw [sizeAll_append, sizeAll, sizeAll] at total
    refine ⟨finalStored, fun earlier => everywhere ?_, finalShallow, by omega, finalFew⟩
    rw [everywhereAll_append]
    exact ⟨earlier, childStored, trivial⟩

/-! ### What the octets of a tree cost -/

def mbUintLength (value : Nat) : Nat :=
  ((mbUintGroups 4 (value / 128)).map List.length).getD 0 + 1

theorem mbUintGroups_length {room value : Nat} {groups : List UInt8}
    (spelled : mbUintGroups room value = some groups) {count : Nat} (small : value < 128 ^ count) :
    groups.length ≤ count := by
  induction room generalizing value groups count with
  | zero =>
      by_cases zero : value = 0
      · rw [mbUintGroups, if_pos zero, Option.some.injEq] at spelled
        simp [← spelled]
      · simp [mbUintGroups, zero] at spelled
  | succ room ih =>
      rw [mbUintGroups] at spelled
      by_cases zero : value = 0
      · rw [if_pos zero, Option.some.injEq] at spelled
        simp [← spelled]
      · rw [if_neg zero] at spelled
        obtain ⟨front, spelledFront, whole⟩ := Option.map_eq_some_iff.mp spelled
        cases count with
        | zero =>
            rw [Nat.pow_zero] at small
            omega
        | succ count =>
            have smaller : value / 128 < 128 ^ count := by
              rw [Nat.pow_succ] at small
              exact Nat.div_lt_of_lt_mul (by omega)
            have bound := ih spelledFront smaller
            rw [← whole, List.length_append, List.length_singleton]
            omega

theorem readMbUint_length {value : Nat} {rest after : List UInt8}
    (read : readMbUint rest = .ok (value, after)) : after.length + mbUintLength value ≤ rest.length := by
  obtain ⟨used, length, bound⟩ := readMbUintFrom_length (show 0 < 128 ^ 0 by decide) read
  have small : value / 128 < 128 ^ used := by
    rw [Nat.zero_add, Nat.pow_succ] at bound
    exact Nat.div_lt_of_lt_mul (by omega)
  rw [mbUintLength, length]
  cases spelled : mbUintGroups 4 (value / 128) with
  | none => simp
  | some groups =>
      have fewer := mbUintGroups_length spelled small
      simp
      omega

theorem appendMbUint_length {value : UInt32} {bytes : List UInt8} (spelled : appendMbUint value = .ok bytes) :
    bytes.length = mbUintLength value.toNat := by
  unfold appendMbUint at spelled
  rw [mbUintLength]
  split at spelled
  · contradiction
  · next groups same =>
      cases spelled
      simp [same]

def textCost : Option (List UInt8) → Nat
  | none => 0
  | some text => (cString text).length + 2

def dataCost : Option (List UInt8) → Nat
  | none => 0
  | some data => mbUintLength data.length + data.length + 1

mutual

def WbxmlNode.lastPage : WbxmlNode → UInt8
  | ⟨codePage, _, _, _, children⟩ => lastPageAll codePage children

def lastPageAll (page : UInt8) : List WbxmlNode → UInt8
  | [] => page
  | child :: rest => lastPageAll child.lastPage rest

end

mutual

/-- The octets of a tree, where an empty element with the token of a control octet costs
`marked` more. -/
def WbxmlNode.cost (marked : Nat) (page : UInt8) : WbxmlNode → Nat
  | ⟨codePage, token, text, opaqueData, children⟩ =>
      switchCost page codePage + 1 +
        if nodeHasContent ⟨codePage, token, text, opaqueData, children⟩ then
          textCost text + dataCost opaqueData + costAll marked codePage children + 1
        else if token.toNat < 5 then marked
        else 0

def costAll (marked : Nat) (page : UInt8) : List WbxmlNode → Nat
  | [] => 0
  | child :: rest => child.cost marked page + costAll marked child.lastPage rest

end

theorem encodeText_length (text : Option (List UInt8)) : (encodeText text).length = textCost text := by
  cases text with
  | none => rfl
  | some text => simp [encodeText, textCost]

theorem encodeOpaque_length {data : Option (List UInt8)} {bytes : List UInt8}
    (encoded : encodeOpaque data = .ok bytes) : bytes.length = dataCost data := by
  cases data with
  | none =>
      cases encoded
      rfl
  | some data =>
      rw [encodeOpaque] at encoded
      split at encoded
      · contradiction
      next bounded =>
      cases spelled : appendMbUint (UInt32.ofNat data.length) with
      | error error => simp [spelled, Except.map] at encoded
      | ok length =>
          have size : (UInt32.ofNat data.length).toNat = data.length := by
            rw [UInt32.toNat_ofNat']
            omega
          have count := appendMbUint_length spelled
          rw [size] at count
          rw [spelled] at encoded
          cases encoded
          simp [dataCost, count]

theorem encodeSwitch_length (page codePage : UInt8) :
    (encodeSwitch page codePage).length = switchCost page codePage := by
  unfold encodeSwitch switchCost
  split <;> rfl

mutual

theorem encodeNode_length (node : WbxmlNode) {page after : UInt8} {bytes : List UInt8}
    (encoded : encodeNode page node = .ok (bytes, after)) :
    bytes.length = node.cost 0 page ∧ after = node.lastPage := by
  match node with
  | ⟨codePage, token, text, opaqueData, children⟩ =>
      rw [encodeNode] at encoded
      rw [WbxmlNode.cost, WbxmlNode.lastPage]
      split at encoded
      · next content =>
          cases spelled : encodeOpaque opaqueData with
          | error error => simp [spelled, bind, Except.bind] at encoded
          | ok data =>
              cases inner : encodeChildren codePage children with
              | error error => simp [spelled, inner, bind, Except.bind] at encoded
              | ok items =>
                  obtain ⟨length, last⟩ := encodeChildren_length children inner
                  simp only [spelled, inner, bind, Except.bind, Except.ok.injEq, Prod.mk.injEq] at encoded
                  obtain ⟨rfl, rfl⟩ := encoded
                  rw [if_pos content]
                  refine ⟨?_, last⟩
                  simp only [List.length_append, List.length_cons, encodeSwitch_length, encodeText_length,
                    encodeOpaque_length spelled, length, List.length_nil]
                  omega
      · next content =>
          cases encoded
          obtain ⟨-, -, childless⟩ := nodeHasContent_false.mp (Bool.eq_false_iff.mpr content)
          dsimp only at childless
          rw [childless, lastPageAll, if_neg (by rwa [childless] at content), ite_self, List.length_append,
            encodeSwitch_length]
          exact ⟨rfl, rfl⟩

theorem encodeChildren_length (children : List WbxmlNode) {page after : UInt8} {bytes : List UInt8}
    (encoded : encodeChildren page children = .ok (bytes, after)) :
    bytes.length = costAll 0 page children ∧ after = lastPageAll page children := by
  match children with
  | [] =>
      cases encoded
      exact ⟨rfl, rfl⟩
  | child :: rest =>
      rw [encodeChildren] at encoded
      rw [costAll, lastPageAll]
      cases first : encodeNode page child with
      | error error => simp [first, bind, Except.bind] at encoded
      | ok head =>
          obtain ⟨headLength, headPage⟩ := encodeNode_length child first
          cases others : encodeChildren head.2 rest with
          | error error => simp [first, others, bind, Except.bind] at encoded
          | ok tail =>
              obtain ⟨tailLength, tailPage⟩ := encodeChildren_length rest others
              simp only [first, others, bind, Except.bind, Except.ok.injEq, Prod.mk.injEq] at encoded
              obtain ⟨rfl, rfl⟩ := encoded
              rw [← headPage]
              exact ⟨by rw [List.length_append, headLength, tailLength], tailPage⟩

end

theorem lastPageAll_append (page : UInt8) (left right : List WbxmlNode) :
    lastPageAll page (left ++ right) = lastPageAll (lastPageAll page left) right := by
  induction left generalizing page with
  | nil => rfl
  | cons child left ih => simp only [List.cons_append, lastPageAll, ih]

theorem costAll_append (marked : Nat) (page : UInt8) (left right : List WbxmlNode) :
    costAll marked page (left ++ right) =
      costAll marked page left + costAll marked (lastPageAll page left) right := by
  induction left generalizing page with
  | nil => simp [costAll, lastPageAll]
  | cons child left ih => simp only [List.cons_append, costAll, lastPageAll, ih, Nat.add_assoc]

theorem lastPage_eq (node : WbxmlNode) : node.lastPage = lastPageAll node.codePage node.children := by
  cases node
  rw [WbxmlNode.lastPage]

def innerCost (node : WbxmlNode) : Nat :=
  textCost node.text + dataCost node.opaqueData + costAll 1 node.codePage node.children

theorem cost_eq (marked : Nat) (page : UInt8) (node : WbxmlNode) :
    node.cost marked page = switchCost page node.codePage + 1 +
      if nodeHasContent node then
        textCost node.text + dataCost node.opaqueData + costAll marked node.codePage node.children + 1
      else if node.token.toNat < 5 then marked else 0 := by
  cases node
  rw [WbxmlNode.cost]

theorem cString_append_length (left right : List UInt8) :
    (cString (left ++ right)).length ≤ (cString left).length + right.length := by
  induction left with
  | nil => simpa [cString] using (List.takeWhile_prefix _).length_le
  | cons byte left ih =>
      unfold cString at ih ⊢
      rw [List.cons_append, List.takeWhile_cons, List.takeWhile_cons]
      split
      · simp only [List.length_cons]
        omega
      · simp

theorem textCost_append {node node' : WbxmlNode} {text : List UInt8}
    (appended : appendNodeText node text = .ok node') :
    textCost node'.text ≤ textCost node.text + (text.length + 2) := by
  unfold appendNodeText at appended
  split at appended
  · cases appended
    have bound : (cString text).length ≤ text.length := (List.takeWhile_prefix _).length_le
    simp only [textCost]
    omega
  · next old isOld =>
      split at appended
      · contradiction
      · cases appended
        have bound := cString_append_length old text
        rw [isOld]
        simp only [textCost]
        omega

/-- No accepted octets are fewer than the cost of what they decode to. -/
theorem decode_cost (mallocZero : Bool) :
    DecodeRule mallocZero []
      (fun _ ctx node after => ∀ page,
        after.rest.length + node.cost 1 page + switchCost node.lastPage after.currentCodePage ≤
          ctx.rest.length + switchCost page ctx.currentCodePage)
      (fun _ node ctx final after => final.codePage = node.codePage ∧ final.token = node.token ∧
        after.rest.length + 1 + innerCost final + switchCost final.lastPage after.currentCodePage ≤
          ctx.rest.length + innerCost node + switchCost node.lastPage ctx.currentCodePage) where
  leaf := by
    intro depth ctx byte rest page shallow tag accepted few flag last
    have spent := readTag_length tag last
    obtain ⟨-, -, high, -⟩ := token_facts accepted
    have notLow : ¬(byte &&& wbxmlTokenMask).toNat < 5 := by
      have := high flag
      omega
    rw [cost_eq, lastPage_eq, lastPageAll, switchCost_self, if_neg (by simp [nodeHasContent]), if_neg notLow]
    dsimp only
    omega
  element := by
    intro depth ctx byte rest page node after shallow tag accepted few flag content last
    obtain ⟨samePage, sameToken, bound⟩ := content
    have spent := readTag_length tag last
    have fresh : innerCost { codePage := page, token := byte &&& wbxmlTokenMask } = 0 := rfl
    rw [fresh, lastPage_eq { codePage := page, token := byte &&& wbxmlTokenMask }, lastPageAll,
      switchCost_self] at bound
    dsimp only at bound samePage
    rw [cost_eq, samePage]
    unfold innerCost at bound
    rw [samePage] at bound
    split
    · omega
    · split <;> omega
  ending := by
    intro depth node rest page count
    refine ⟨rfl, rfl, ?_⟩
    dsimp only
    rw [List.length_cons]
  switch := by
    intro depth node rest page codePage count final after content
    obtain ⟨samePage, sameToken, bound⟩ := content
    have most := switchCost_le node.lastPage codePage
    refine ⟨samePage, sameToken, ?_⟩
    dsimp only at bound ⊢
    rw [List.length_cons, List.length_cons]
    omega
  text := by
    intro depth node node' byte rest text behind page count final after item appended content
    obtain ⟨samePage, sameToken, bound⟩ := content
    have grown := textCost_append appended
    have used : behind.length + (text.length + 1) ≤ rest.length := by
      rcases item with ⟨-, read⟩ | ⟨-, read⟩
      · rw [(splitNul_some (readInlineString_some read).1).1, List.length_append, List.length_cons]
        omega
      · -- an empty string table has no strings
        obtain ⟨⟨offset, inTable, -⟩, -⟩ := readTableString_some read
        exact absurd inTable (Nat.not_lt_zero _)
    obtain ⟨keptPage, keptToken, -, keptData, keptChildren⟩ := appendNodeText_kept appended
    refine ⟨samePage.trans keptPage, sameToken.trans keptToken, ?_⟩
    rw [lastPage_eq node', keptPage, keptChildren, ← lastPage_eq] at bound
    have inner : innerCost node' ≤ innerCost node + (text.length + 2) := by
      unfold innerCost
      rw [keptPage, keptData, keptChildren]
      omega
    dsimp only at bound ⊢
    rw [List.length_cons]
    omega
  data := by
    intro depth node rest length behind page count final after read allowed present content
    obtain ⟨samePage, sameToken, bound⟩ := content
    have spent := readMbUint_length read
    refine ⟨samePage, sameToken, ?_⟩
    have cost : dataCost (setNodeOpaque mallocZero node (behind.take length)).opaqueData ≤
        mbUintLength length + length + 1 := by
      have taken : (behind.take length).length = length := List.length_take_of_le present
      simp only [setNodeOpaque]
      split
      · simp [dataCost]
      · simp only [dataCost, taken]
        omega
    have inner : innerCost (setNodeOpaque mallocZero node (behind.take length)) ≤
        innerCost node + (mbUintLength length + length + 1) := by
      unfold innerCost
      have same : costAll 1 (setNodeOpaque mallocZero node (behind.take length)).codePage
          (setNodeOpaque mallocZero node (behind.take length)).children =
            costAll 1 node.codePage node.children := rfl
      have sameText : (setNodeOpaque mallocZero node (behind.take length)).text = node.text := rfl
      rw [same, sameText]
      omega
    rw [lastPage_eq (setNodeOpaque mallocZero node (behind.take length))] at bound
    rw [lastPage_eq node]
    simp only [setNodeOpaque] at bound inner ⊢
    rw [List.length_drop] at bound
    rw [List.length_cons]
    omega
  child := by
    intro depth node ctx byte rest child middle final after starts front inner content
    obtain ⟨samePage, sameToken, bound⟩ := content
    have childCost := inner node.lastPage
    refine ⟨samePage, sameToken, ?_⟩
    have added : innerCost (mailactivesyncWbxmlNodeAddChild node child) =
        innerCost node + child.cost 1 node.lastPage := by
      simp only [innerCost, mailactivesyncWbxmlNodeAddChild, costAll_append, costAll, lastPage_eq node]
      omega
    have last : (mailactivesyncWbxmlNodeAddChild node child).lastPage = child.lastPage := by
      rw [lastPage_eq]
      simp only [mailactivesyncWbxmlNodeAddChild, lastPageAll_append, lastPageAll]
    rw [added, last] at bound
    omega

mutual

theorem cost_spoilt (node : WbxmlNode) (page : UInt8) :
    node.cost 0 page ≤ node.cost 1 page ∧
      (¬node.Everywhere TagSafe → node.cost 0 page < node.cost 1 page) := by
  match node with
  | ⟨codePage, token, text, opaqueData, children⟩ =>
      obtain ⟨least, more⟩ := costAll_spoilt children codePage
      rw [WbxmlNode.cost, WbxmlNode.cost, WbxmlNode.Everywhere, TagSafe]
      by_cases content : nodeHasContent ⟨codePage, token, text, opaqueData, children⟩ = true
      · rw [if_pos content, if_pos content]
        refine ⟨by omega, fun spoilt => ?_⟩
        have below := more fun safe => spoilt ⟨.inr content, safe⟩
        omega
      · rw [if_neg content, if_neg content]
        obtain ⟨-, -, childless⟩ := nodeHasContent_false.mp (Bool.eq_false_iff.mpr content)
        dsimp only at childless ⊢
        by_cases low : token.toNat < 5
        · rw [if_pos low, if_pos low]
          omega
        · rw [if_neg low, if_neg low]
          refine ⟨Nat.le_refl _, fun spoilt => ?_⟩
          refine absurd ⟨.inl (by omega), ?_⟩ spoilt
          rw [childless]
          trivial

theorem costAll_spoilt (children : List WbxmlNode) (page : UInt8) :
    costAll 0 page children ≤ costAll 1 page children ∧
      (¬everywhereAll TagSafe children → costAll 0 page children < costAll 1 page children) := by
  match children with
  | [] => exact ⟨Nat.le_refl _, fun spoilt => absurd trivial spoilt⟩
  | child :: rest =>
      obtain ⟨leastChild, moreChild⟩ := cost_spoilt child page
      obtain ⟨leastRest, moreRest⟩ := costAll_spoilt rest child.lastPage
      rw [costAll, costAll, everywhereAll]
      refine ⟨by omega, fun spoilt => ?_⟩
      by_cases safe : child.Everywhere TagSafe
      · have below := moreRest fun safeRest => spoilt ⟨safe, safeRest⟩
        omega
      · have below := moreChild safe
        omega

end

/-! ### The condition on the octets -/

inductive WbxmlItem where
  | page
  | ending
  | text
  | data (length : Nat)
  | tag (byte : UInt8)
deriving Repr, DecidableEq

def nextItem : List UInt8 → Option (WbxmlItem × List UInt8)
  | [] => none
  | byte :: rest =>
      if byte = wbxmlEnd then some (.ending, rest)
      else if byte = wbxmlSwitchPage then
        match rest with
        | [] => none
        | _ :: rest => some (.page, rest)
      else if byte = wbxmlStrI then (splitNul rest).map fun (_, after) => (.text, after)
      else if byte = wbxmlStrT then
        match readMbUint rest with
        | .error _ => none
        | .ok (_, after) => some (.text, after)
      else if byte = wbxmlOpaque then
        match readMbUint rest with
        | .error _ => none
        | .ok (length, after) => some (.data length, after.drop length)
      else some (.tag byte, rest)

theorem nextItem_length {bytes rest : List UInt8} {item : WbxmlItem}
    (lexed : nextItem bytes = some (item, rest)) : rest.length < bytes.length := by
  cases bytes with
  | nil => simp [nextItem] at lexed
  | cons byte tail =>
      rw [List.length_cons]
      unfold nextItem at lexed
      dsimp only at lexed
      split at lexed
      · cases lexed
        omega
      split at lexed
      · split at lexed
        · contradiction
        · cases lexed
          rw [List.length_cons]
          omega
      split at lexed
      · obtain ⟨⟨text, after⟩, split, same⟩ := Option.map_eq_some_iff.mp lexed
        cases same
        rw [(splitNul_some split).1]
        simp
        omega
      split at lexed
      · split at lexed
        · contradiction
        next offset after read =>
        cases lexed
        have used := readMbUint_length read
        omega
      split at lexed
      · split at lexed
        · contradiction
        next length after read =>
        cases lexed
        have used := readMbUint_length read
        rw [List.length_drop]
        omega
      · cases lexed
        omega

def wbxmlItems (bytes : List UInt8) : List WbxmlItem :=
  match _lexed : nextItem bytes with
  | none => []
  | some (item, rest) => item :: wbxmlItems rest
termination_by bytes.length
decreasing_by exact nextItem_length (by assumption)

theorem wbxmlItems_cons {bytes rest : List UInt8} {item : WbxmlItem}
    (lexed : nextItem bytes = some (item, rest)) : wbxmlItems bytes = item :: wbxmlItems rest := by
  rw [wbxmlItems]
  split
  · next none =>
      rw [lexed] at none
      contradiction
  · next same =>
      rw [lexed] at same
      cases same
      rfl

/-- The items up to the end of an element hold nothing the decoder stores in it: no text,
no child, and no data; an empty data item counts as `malloc(0)` decides. -/
def hollowContent (mallocZero : Bool) : Bool → List WbxmlItem → Bool
  | held, .page :: rest => hollowContent mallocZero held rest
  | _, .data length :: rest => hollowContent mallocZero (mallocZero || length ≠ 0) rest
  | held, .ending :: _ => !held
  | _, .text :: _ => false
  | _, .tag _ :: _ => false
  | _, [] => false

/-- A tag with content whose token is that of a control octet, around hollow content. -/
def hollowElement (mallocZero : Bool) : List WbxmlItem → Bool
  | [] => false
  | .tag byte :: rest =>
      (0x41 ≤ byte.toNat && byte.toNat ≤ 0x44 && hollowContent mallocZero false rest) ||
        hollowElement mallocZero rest
  | .page :: rest => hollowElement mallocZero rest
  | .ending :: rest => hollowElement mallocZero rest
  | .text :: rest => hollowElement mallocZero rest
  | .data _ :: rest => hollowElement mallocZero rest

theorem wbxmlItems_end (rest : List UInt8) : wbxmlItems (wbxmlEnd :: rest) = .ending :: wbxmlItems rest :=
  wbxmlItems_cons (by simp [nextItem])

theorem wbxmlItems_switch (codePage : UInt8) (rest : List UInt8) :
    wbxmlItems (wbxmlSwitchPage :: codePage :: rest) = .page :: wbxmlItems rest :=
  wbxmlItems_cons (by simp [nextItem, wbxmlSwitchPage, wbxmlEnd])

theorem wbxmlItems_text {stringTable : List UInt8} {byte : UInt8} {rest text behind : List UInt8}
    (item : TextItem stringTable byte rest text behind) :
    wbxmlItems (byte :: rest) = .text :: wbxmlItems behind := by
  apply wbxmlItems_cons
  rcases item with ⟨rfl, read⟩ | ⟨rfl, read⟩
  · have notEnd : ¬wbxmlStrI = wbxmlEnd := by decide
    have notSwitch : ¬wbxmlStrI = wbxmlSwitchPage := by decide
    simp [nextItem, notEnd, notSwitch, (readInlineString_some read).1]
  · have notEnd : ¬wbxmlStrT = wbxmlEnd := by decide
    have notSwitch : ¬wbxmlStrT = wbxmlSwitchPage := by decide
    have notStrI : ¬wbxmlStrT = wbxmlStrI := by decide
    obtain ⟨⟨offset, -, number⟩, -⟩ := readTableString_some read
    simp [nextItem, notEnd, notSwitch, notStrI, number]

theorem wbxmlItems_data {rest behind : List UInt8} {length : Nat}
    (read : readMbUint rest = .ok (length, behind)) :
    wbxmlItems (wbxmlOpaque :: rest) = .data length :: wbxmlItems (behind.drop length) := by
  have notEnd : ¬wbxmlOpaque = wbxmlEnd := by decide
  have notSwitch : ¬wbxmlOpaque = wbxmlSwitchPage := by decide
  have notStrI : ¬wbxmlOpaque = wbxmlStrI := by decide
  have notStrT : ¬wbxmlOpaque = wbxmlStrT := by decide
  apply wbxmlItems_cons
  simp [nextItem, notEnd, notSwitch, notStrI, notStrT, read]

theorem wbxmlItems_tag {byte : UInt8} (starts : StartsChild byte) (rest : List UInt8) :
    wbxmlItems (byte :: rest) = .tag byte :: wbxmlItems rest := by
  obtain ⟨notEnd, notSwitch, notStrI, notStrT, notOpaque⟩ := starts
  apply wbxmlItems_cons
  simp [nextItem, notEnd, notSwitch, notStrI, notStrT, notOpaque]

theorem hollowElement_readTag {mallocZero : Bool} {page : UInt8} {bytes : List UInt8} {byte : UInt8}
    {rest : List UInt8} {after : UInt8} (read : readTag page bytes = .ok (byte, rest, after))
    (starts : StartsChild byte) :
    hollowElement mallocZero (wbxmlItems bytes) =
      ((0x41 ≤ byte.toNat && byte.toNat ≤ 0x44 && hollowContent mallocZero false (wbxmlItems rest)) ||
        hollowElement mallocZero (wbxmlItems rest)) := by
  fun_induction readTag page bytes with
  | case1 => contradiction
  | case2 => contradiction
  | case3 page codePage rest' ih => rw [wbxmlItems_switch, hollowElement, ih read]
  | case4 page byte' rest' plain =>
      cases read
      rw [wbxmlItems_tag starts, hollowElement]

/-- The octets of an accepted tree show a hollow element exactly when the tree has an
unsafe tag. -/
theorem decode_hollow (mallocZero : Bool) (stringTable : List UInt8) :
    DecodeRule mallocZero stringTable
      (fun _ ctx node after => hollowElement mallocZero (wbxmlItems ctx.rest) = true ↔
        ¬node.Everywhere TagSafe ∨ hollowElement mallocZero (wbxmlItems after.rest) = true)
      (fun _ node ctx final after => final.token = node.token ∧
        (∃ new, final.children = node.children ++ new ∧
          (hollowElement mallocZero (wbxmlItems ctx.rest) = true ↔
            ¬everywhereAll TagSafe new ∨ hollowElement mallocZero (wbxmlItems after.rest) = true)) ∧
        (node.text.isSome = true ∨ node.children ≠ [] → nodeHasContent final = true) ∧
        (node.text = none → node.children = [] →
          hollowContent mallocZero node.opaqueData.isSome (wbxmlItems ctx.rest) = !nodeHasContent final)) where
  leaf := by
    intro depth ctx byte rest page shallow tag accepted few flag
    obtain ⟨-, -, high, -, starts⟩ := token_facts accepted
    have notMarked : ¬(0x41 ≤ byte.toNat ∧ byte.toNat ≤ 0x44) := by
      have every : ∀ byte : UInt8, byte &&& wbxmlHasContent = 0 → ¬(0x41 ≤ byte.toNat ∧ byte.toNat ≤ 0x44) := by
        apply forall_octet
        decide +kernel
      exact every byte flag
    have safe : WbxmlNode.Everywhere TagSafe { codePage := page, token := byte &&& wbxmlTokenMask } :=
      everywhere_iff.mpr ⟨.inl (high flag), trivial⟩
    rw [hollowElement_readTag tag starts]
    have unmarked : (decide (0x41 ≤ byte.toNat) && decide (byte.toNat ≤ 0x44)) = false := by
      simpa using notMarked
    simp [unmarked, safe]
  element := by
    intro depth ctx byte rest page node after shallow tag accepted few flag content
    obtain ⟨-, -, -, low, starts⟩ := token_facts accepted
    obtain ⟨sameToken, ⟨new, children, hollow⟩, -, empty⟩ := content
    have shape : node.children = new := by simpa using children
    have contents := empty rfl rfl
    dsimp only [Option.isSome_none] at contents sameToken hollow
    rw [hollowElement_readTag tag starts, everywhere_iff, TagSafe, shape, sameToken, contents]
    have marked := low flag
    by_cases isLow : (byte &&& wbxmlTokenMask).toNat < 5
    · obtain ⟨lower, upper⟩ := marked.mp isLow
      have notHigh : ¬5 ≤ (byte &&& wbxmlTokenMask).toNat := by omega
      simp only [lower, upper, decide_true, Bool.true_and, Bool.or_eq_true, Bool.not_eq_true', notHigh,
        false_or, not_and_or, Bool.not_eq_true, hollow]
      tauto
    · have isHigh : 5 ≤ (byte &&& wbxmlTokenMask).toNat := by omega
      have unmarked : (decide (0x41 ≤ byte.toNat) && decide (byte.toNat ≤ 0x44)) = false := by
        have outside := fun inside => isLow (marked.mpr inside)
        simpa using outside
      simp only [unmarked, Bool.false_and, Bool.false_or, isHigh, true_or, true_and, hollow]
  ending := by
    intro depth node rest page count
    refine ⟨rfl, ⟨[], by simp, ?_⟩, ?_, ?_⟩
    · dsimp only
      rw [wbxmlItems_end, hollowElement]
      simp [everywhereAll]
    · intro some
      cases content : nodeHasContent node with
      | true => rfl
      | false =>
          obtain ⟨noText, -, noChildren⟩ := nodeHasContent_false.mp content
          simp [noText, noChildren] at some
    · intro noText noChildren
      dsimp only
      rw [wbxmlItems_end, hollowContent]
      simp [nodeHasContent, noText, noChildren]
  switch := by
    intro depth node rest page codePage count final after content
    dsimp only at content ⊢
    rw [wbxmlItems_switch, hollowElement, hollowContent]
    exact content
  text := by
    intro depth node node' byte rest text behind page count final after item appended content
    obtain ⟨-, keptToken, isText, -, keptChildren⟩ := appendNodeText_kept appended
    obtain ⟨sameToken, ⟨new, children, hollow⟩, full, -⟩ := content
    rw [keptChildren] at children
    have content := full (.inl isText)
    dsimp only at hollow ⊢
    rw [wbxmlItems_text item, hollowElement, hollowContent]
    exact ⟨sameToken.trans keptToken, ⟨new, children, hollow⟩, fun _ => content, fun _ _ => by rw [content]; rfl⟩
  data := by
    intro depth node rest length behind page count final after read allowed present content
    obtain ⟨sameToken, ⟨new, children, hollow⟩, full, empty⟩ := content
    have held : (setNodeOpaque mallocZero node (behind.take length)).opaqueData.isSome =
        (mallocZero || decide (length ≠ 0)) := by
      have zero : behind.take length = [] ↔ length = 0 := by
        rw [← List.length_eq_zero_iff, List.length_take_of_le present]
      simp only [setNodeOpaque, zero]
      cases mallocZero with
      | true => simp
      | false =>
          by_cases isZero : length = 0
          · simp [isZero]
          · simp [isZero]
    dsimp only at hollow empty ⊢
    rw [held] at empty
    rw [wbxmlItems_data read, hollowElement, hollowContent]
    exact ⟨sameToken, ⟨new, children, hollow⟩, full, empty⟩
  child := by
    intro depth node ctx byte rest child middle final after starts front inner content
    obtain ⟨sameToken, ⟨new, children, hollow⟩, full, -⟩ := content
    have added : (mailactivesyncWbxmlNodeAddChild node child).children = node.children ++ [child] := rfl
    have content := full (.inr (by simp [added]))
    refine ⟨sameToken, ⟨child :: new, ?_, ?_⟩, fun _ => content, fun _ _ => ?_⟩
    · rw [children, added, List.append_assoc, List.singleton_append]
    · rw [inner, hollow, everywhereAll]
      tauto
    · rw [front, wbxmlItems_tag starts, hollowContent, content]
      rfl

/-! ### Encoding an accepted document again -/

mutual

theorem WbxmlNode.Everywhere.and {first second : WbxmlNode → Prop} (node : WbxmlNode)
    (left : node.Everywhere first) (right : node.Everywhere second) :
    node.Everywhere fun node => first node ∧ second node := by
  match node with
  | ⟨codePage, token, text, opaqueData, children⟩ =>
      rw [WbxmlNode.Everywhere] at left right ⊢
      exact ⟨⟨left.1, right.1⟩, everywhereAll.and children left.2 right.2⟩

theorem everywhereAll.and {first second : WbxmlNode → Prop} (children : List WbxmlNode)
    (left : everywhereAll first children) (right : everywhereAll second children) :
    everywhereAll (fun node => first node ∧ second node) children := by
  match children with
  | [] => trivial
  | child :: rest =>
      rw [everywhereAll] at left right ⊢
      exact ⟨WbxmlNode.Everywhere.and child left.1 right.1, everywhereAll.and rest left.2 right.2⟩

end

def wbxmlBody : List UInt8 → List UInt8
  | [] => []
  | _ :: rest =>
      match (do
        let publicId ← readMbUint rest
        let charset ← readMbUint publicId.2
        let stringTable ← readMbUint charset.2
        .ok (stringTable.2.drop stringTable.1)) with
      | .error _ => []
      | .ok body => body

theorem decode_inversion {mallocZero : Bool} {data : List UInt8} {document : WbxmlDocument}
    (accepted : mailactivesyncWbxmlDecode mallocZero data = .ok document) :
    ∃ version rest publicId behindId charset behindCharset count behindCount root after,
      data = version :: rest ∧ readMbUint rest = .ok (publicId, behindId) ∧
      readMbUint behindId = .ok (charset, behindCharset) ∧
      readMbUint behindCharset = .ok (count, behindCount) ∧ wbxmlBody data = behindCount.drop count ∧
      decodeNode mallocZero (behindCount.take count) (decodeTurns (behindCount.drop count)) 0
        ⟨behindCount.drop count, 0, 0⟩ = .ok (root, after) ∧ after.rest = [] ∧
      document = ⟨version, UInt32.ofNat publicId, UInt32.ofNat charset, some root⟩ := by
  unfold mailactivesyncWbxmlDecode at accepted
  split at accepted
  · contradiction
  next version rest =>
  cases idRead : readMbUint rest with
  | error error => simp [idRead, bind, Except.bind] at accepted
  | ok publicId =>
  cases charsetRead : readMbUint publicId.2 with
  | error error => simp [idRead, charsetRead, bind, Except.bind] at accepted
  | ok charset =>
  cases countRead : readMbUint charset.2 with
  | error error => simp [idRead, charsetRead, countRead, bind, Except.bind] at accepted
  | ok table =>
  simp only [idRead, charsetRead, countRead, bind, Except.bind] at accepted
  split at accepted
  · contradiction
  split at accepted
  · contradiction
  split at accepted
  · contradiction
  next root decoded =>
  split at accepted
  · contradiction
  next finished =>
  cases accepted
  refine ⟨version, rest, publicId.1, publicId.2, charset.1, charset.2, table.1, table.2, root.1, root.2, rfl,
    idRead, charsetRead, countRead, ?_, decoded, by simpa using finished, rfl⟩
  simp [wbxmlBody, idRead, charsetRead, countRead, bind, Except.bind]

/-- The body of an encoding, and that nothing is left of its string table. -/
theorem encode_inversion {document : WbxmlDocument} {root : WbxmlNode} (rooted : document.root = some root)
    {bytes : List UInt8} (encoded : mailactivesyncWbxmlEncode document = .ok bytes) :
    ∃ body after, encodeNode 0 root = .ok (body, after) ∧ ∃ rest behindId behindCharset publicId charset,
      bytes = document.version :: rest ∧ readMbUint rest = .ok (publicId, behindId) ∧
      readMbUint behindId = .ok (charset, behindCharset) ∧ readMbUint behindCharset = .ok (0, body) := by
  obtain ⟨version, publicId, charset, root'⟩ := document
  cases rooted
  obtain ⟨idBytes, idSpelled, -, idRead⟩ := appendMbUint_read publicId
  obtain ⟨charsetBytes, charsetSpelled, -, charsetRead⟩ := appendMbUint_read charset
  have tableSpelled : appendMbUint 0 = .ok [0] := by decide
  have tableRead : ∀ rest, readMbUint ([0] ++ rest) = .ok (0, rest) := by
    intro rest
    simp [readMbUint, readMbUintFrom]
  cases inner : encodeNode 0 root with
  | error error =>
      simp [mailactivesyncWbxmlEncode, idSpelled, charsetSpelled, tableSpelled, inner, bind, Except.bind] at encoded
  | ok body =>
      simp only [mailactivesyncWbxmlEncode, idSpelled, charsetSpelled, tableSpelled, inner, bind, Except.bind,
        Except.ok.injEq] at encoded
      refine ⟨body.1, body.2, rfl, idBytes ++ (charsetBytes ++ ([0] ++ body.1)), _, _, _, _, ?_,
        idRead _, charsetRead _, tableRead _⟩
      rw [← encoded]
      simp

/-- An accepted document comes back from its own encoding exactly when its octets hold no
element whose tag is 0x41 to 0x44 and whose content stores nothing: such an element is
written back as its bare token, which is a control octet. -/
theorem mailactivesyncWbxml_stable (mallocZero : Bool) {data : List UInt8} {document : WbxmlDocument}
    (accepted : mailactivesyncWbxmlDecode mallocZero data = .ok document) :
    (∃ bytes, mailactivesyncWbxmlEncode document = .ok bytes ∧
        mailactivesyncWbxmlDecode mallocZero bytes = .ok document) ↔
      hollowElement mallocZero (wbxmlItems (wbxmlBody data)) = false := by
  obtain ⟨version, rest, publicId, behindId, charset, behindCharset, count, behindCount, root, after, -, -, -,
    -, body, decoded, finished, shape⟩ := decode_inversion accepted
  have rooted : document.root = some root := by rw [shape]
  obtain ⟨stored, shallow, counted, few⟩ :=
    ((decode_stored mallocZero (behindCount.take count)).accepted _).1 _ _ _ _ decoded
  have hollow := ((decode_hollow mallocZero (behindCount.take count)).accepted _).1 _ _ _ _ decoded
  have nothing : hollowElement mallocZero (wbxmlItems []) = false := by
    rw [wbxmlItems]
    rfl
  rw [finished, nothing] at hollow
  rw [body, Bool.eq_false_iff, ne_eq, hollow]
  constructor
  · rintro ⟨bytes, encoded, again⟩ spoilt
    obtain ⟨inner, lastPage, encodedRoot, rest', behindId', behindCharset', publicId', charset', spelled, idRead,
      charsetRead, tableRead⟩ := encode_inversion rooted encoded
    obtain ⟨version₂, rest₂, id₂, behindId₂, charset₂, behindCharset₂, count₂, behindCount₂, root₂, after₂, same,
      idRead₂, charsetRead₂, countRead₂, -, decoded₂, finished₂, shape₂⟩ := decode_inversion again
    rw [spelled] at same
    obtain ⟨rfl, rfl⟩ := List.cons.inj same
    rw [idRead] at idRead₂
    cases idRead₂
    rw [charsetRead] at charsetRead₂
    cases charsetRead₂
    rw [tableRead] at countRead₂
    cases countRead₂
    rw [shape₂] at rooted
    cases rooted
    rw [List.take_zero, List.drop_zero] at decoded₂
    have enough := ((decode_cost mallocZero).accepted _).1 _ _ _ _ decoded₂ 0
    have length := (encodeNode_length _ encodedRoot).1
    have spoiltTag : ¬WbxmlNode.Everywhere TagSafe root := by
      rcases spoilt with spoilt | impossible
      · exact spoilt
      · contradiction
    have more := (cost_spoilt root 0).2 spoiltTag
    rw [finished₂, List.length_nil, switchCost_self] at enough
    dsimp only at enough
    omega
  · intro safe
    have tagged : root.Everywhere TagSafe := by
      by_contra spoilt
      exact safe (.inl spoilt)
    have readable : root.Everywhere (Readable mallocZero) :=
      (WbxmlNode.Everywhere.and root stored tagged).imp fun node both =>
        ⟨both.1.positive, both.1.masked, both.2, both.1.text, both.1.data⟩
    have restored : ∃ body after, NodeRestored mallocZero [] 0 0 root body after :=
      nodeRestored root readable (by omega) (by dsimp only at counted; omega)
    obtain ⟨body, last, restored⟩ := restored
    exact decode_encode_of_restored rooted restored

/-- An element with a text split into two inline strings, behind a repeated page switch. -/
theorem mailactivesyncWbxml_stable_split :
    let data : List UInt8 := [3, 1, 0x6A, 0, 0, 7, 0, 2, 0x45, 3, ascii 'a', 0, 3, ascii 'b', 0, 1]
    let document : WbxmlDocument :=
      ⟨3, 1, 0x6A, some { codePage := 2, token := 5, text := some [ascii 'a', ascii 'b'] }⟩
    mailactivesyncWbxmlDecode true data = .ok document ∧
      ((∃ bytes, mailactivesyncWbxmlEncode document = .ok bytes ∧
          mailactivesyncWbxmlDecode true bytes = .ok document) ↔
        hollowElement true (wbxmlItems (wbxmlBody data)) = false) :=
  ⟨rfl, mailactivesyncWbxml_stable true rfl⟩

/-- The tag 0x41 around nothing is accepted as an element with token 1 and written back as
the end octet, which is not accepted. -/
theorem mailactivesyncWbxml_unstable :
    let document : WbxmlDocument := ⟨3, 1, 0x6A, some { codePage := 0, token := 1 }⟩
    mailactivesyncWbxmlDecode true [3, 1, 0x6A, 0, 0x41, 0x01] = .ok document ∧
      mailactivesyncWbxmlEncode document = .ok [3, 1, 0x6A, 0, 0x01] ∧
      mailactivesyncWbxmlDecode true [3, 1, 0x6A, 0, 0x01] = .error .parse :=
  ⟨rfl, rfl, rfl⟩

end Etpan.Activesync
