import Etpan.Data.Bytes

namespace Etpan.Activesync

open Etpan.Data

/-! WBXML documents, `low-level/activesync/mailactivesync_wbxml.c`.

The name of a node is looked up from its code page and token and is left out, and so
are failed allocations.  `mallocZero` says whether `malloc(0)` gives a pointer, which
the C standard leaves open. -/

inductive WbxmlError where
  | badState
  | parse
  | protocol
deriving Repr, DecidableEq

def wbxmlSwitchPage : UInt8 := 0x00
def wbxmlEnd : UInt8 := 0x01
def wbxmlEntity : UInt8 := 0x02
def wbxmlStrI : UInt8 := 0x03
def wbxmlLiteral : UInt8 := 0x04
def wbxmlStrT : UInt8 := 0x83
def wbxmlOpaque : UInt8 := 0xC3

def wbxmlHasContent : UInt8 := 0x40
def wbxmlHasAttrs : UInt8 := 0x80
def wbxmlTokenMask : UInt8 := 0x3F

def wbxmlMaxDepth : Nat := 64
def wbxmlMaxStringSize : Nat := 1024 * 1024
def wbxmlMaxOpaqueSize : Nat := 32 * 1024 * 1024
def wbxmlMaxStringTableSize : Nat := 1024 * 1024
def wbxmlMaxNodeCount : Nat := 100000

structure WbxmlNode where
  codePage : UInt8
  token : UInt8
  text : Option (List UInt8) := none
  opaqueData : Option (List UInt8) := none
  children : List WbxmlNode := []
deriving Repr

structure WbxmlDocument where
  version : UInt8
  publicId : UInt32
  charset : UInt32
  root : Option WbxmlNode
deriving Repr

/-- The seven-bit groups above the lowest, most significant first; `none` when the five
octets of the buffer do not hold them. -/
def mbUintGroups : Nat → Nat → Option (List UInt8)
  | room, value =>
      if value = 0 then some []
      else
        match room with
        | 0 => none
        | room + 1 =>
            (mbUintGroups room (value / 128)).map (· ++ [UInt8.ofNat (128 + value % 128)])

def appendMbUint (value : UInt32) : Except WbxmlError (List UInt8) :=
  match mbUintGroups 4 (value.toNat / 128) with
  | none => .error .protocol
  | some groups => .ok (groups ++ [UInt8.ofNat (value.toNat % 128)])

def nodeHasContent (node : WbxmlNode) : Bool :=
  node.text.isSome || node.opaqueData.isSome || !node.children.isEmpty

def encodeSwitch (page codePage : UInt8) : List UInt8 :=
  if codePage ≠ page then [wbxmlSwitchPage, codePage] else []

def encodeText : Option (List UInt8) → List UInt8
  | none => []
  | some text => wbxmlStrI :: (cString text ++ [0])

def encodeOpaque : Option (List UInt8) → Except WbxmlError (List UInt8)
  | none => .ok []
  | some data =>
      if 2 ^ 32 - 1 < data.length then .error .protocol
      else (appendMbUint (UInt32.ofNat data.length)).map fun length => wbxmlOpaque :: (length ++ data)

mutual

/-- The octets of a node and the code page in force behind them. -/
def encodeNode (page : UInt8) : WbxmlNode → Except WbxmlError (List UInt8 × UInt8)
  | ⟨codePage, token, text, opaqueData, children⟩ =>
      if nodeHasContent ⟨codePage, token, text, opaqueData, children⟩ then do
        let data ← encodeOpaque opaqueData
        let inner ← encodeChildren codePage children
        .ok (encodeSwitch page codePage ++ (token ||| wbxmlHasContent) ::
          (encodeText text ++ data ++ inner.1 ++ [wbxmlEnd]), inner.2)
      else .ok (encodeSwitch page codePage ++ [token], codePage)

def encodeChildren (page : UInt8) : List WbxmlNode → Except WbxmlError (List UInt8 × UInt8)
  | [] => .ok ([], page)
  | child :: rest => do
      let first ← encodeNode page child
      let others ← encodeChildren first.2 rest
      .ok (first.1 ++ others.1, others.2)

end

def mailactivesyncWbxmlEncode (document : WbxmlDocument) : Except WbxmlError (List UInt8) :=
  match document.root with
  | none => .error .badState
  | some root => do
      let publicId ← appendMbUint document.publicId
      let charset ← appendMbUint document.charset
      let stringTable ← appendMbUint 0
      let body ← encodeNode 0 root
      .ok (document.version :: (publicId ++ charset ++ stringTable ++ body.1))

/-- `wbxml_decode_context` without the string table: the octets at the position, the code
page and the number of nodes so far. -/
structure WbxmlDecodeContext where
  rest : List UInt8
  currentCodePage : UInt8
  nodeCount : Nat
deriving Repr, DecidableEq

/-- `room` octets more may be read. -/
def readMbUintFrom : Nat → Nat → List UInt8 → Except WbxmlError (Nat × List UInt8)
  | 0, _, _ => .error .parse
  | _ + 1, _, [] => .error .parse
  | room + 1, result, byte :: rest =>
      if (2 ^ 32 - 1) / 128 < result then .error .parse
      else if byte.toNat < 128 then .ok (result * 128 + byte.toNat % 128, rest)
      else readMbUintFrom room (result * 128 + byte.toNat % 128) rest

def readMbUint (rest : List UInt8) : Except WbxmlError (Nat × List UInt8) :=
  readMbUintFrom 5 0 rest

def splitNul : List UInt8 → Option (List UInt8 × List UInt8)
  | [] => none
  | byte :: rest => if byte = 0 then some ([], rest) else (splitNul rest).map fun (text, after) => (byte :: text, after)

def readInlineString (rest : List UInt8) : Option (List UInt8 × List UInt8) :=
  match splitNul rest with
  | none => none
  | some (text, after) => if wbxmlMaxStringSize < text.length then none else some (text, after)

def readTableString (stringTable rest : List UInt8) : Option (List UInt8 × List UInt8) :=
  match readMbUint rest with
  | .error _ => none
  | .ok (offset, after) =>
      if stringTable.length ≤ offset then none
      else
        match splitNul (stringTable.drop offset) with
        | none => none
        | some (text, _) => if wbxmlMaxStringSize < text.length then none else some (text, after)

def appendNodeText (node : WbxmlNode) (text : List UInt8) : Except WbxmlError WbxmlNode :=
  match node.text with
  | none => .ok { node with text := some text }
  | some old =>
      if wbxmlMaxStringSize < old.length + text.length then .error .parse
      else .ok { node with text := some (old ++ text) }

section Decode

variable (mallocZero : Bool) (stringTable : List UInt8)

def setNodeOpaque (node : WbxmlNode) (data : List UInt8) : WbxmlNode :=
  { node with opaqueData := if data = [] ∧ mallocZero = false then none else some data }

def mailactivesyncWbxmlNodeAddChild (parent child : WbxmlNode) : WbxmlNode :=
  { parent with children := parent.children ++ [child] }

/-- The loop over page switches in front of a tag: the tag, what follows it and the page. -/
def readTag : UInt8 → List UInt8 → Except WbxmlError (UInt8 × List UInt8 × UInt8)
  | _, [] => .error .parse
  | page, byte :: rest =>
      if byte = wbxmlSwitchPage then
        match rest with
        | [] => .error .parse
        | page :: rest => readTag page rest
      else .ok (byte, rest, page)

def tagRefused (byte : UInt8) : Bool :=
  byte = wbxmlEnd || byte = wbxmlEntity || byte = wbxmlStrI || byte = wbxmlLiteral || byte = wbxmlStrT ||
    byte = wbxmlOpaque || byte &&& wbxmlHasAttrs ≠ 0 || byte &&& wbxmlTokenMask = 0

mutual

/-- The two decoders call each other; every second call consumes an octet, so that twice
the octets left are turns enough. -/
def decodeNode : Nat → Nat → WbxmlDecodeContext → Except WbxmlError (WbxmlNode × WbxmlDecodeContext)
  | 0, _, _ => .error .parse
  | turns + 1, depth, ctx =>
      if wbxmlMaxDepth < depth then .error .parse
      else
        match readTag ctx.currentCodePage ctx.rest with
        | .error error => .error error
        | .ok (byte, rest, page) =>
            if tagRefused byte then .error .parse
            else if wbxmlMaxNodeCount < ctx.nodeCount + 1 then .error .parse
            else
              let node : WbxmlNode := { codePage := page, token := byte &&& wbxmlTokenMask }
              let ctx : WbxmlDecodeContext := ⟨rest, page, ctx.nodeCount + 1⟩
              if byte &&& wbxmlHasContent ≠ 0 then decodeNodeContent turns depth node ctx
              else .ok (node, ctx)

def decodeNodeContent :
    Nat → Nat → WbxmlNode → WbxmlDecodeContext → Except WbxmlError (WbxmlNode × WbxmlDecodeContext)
  | 0, _, _, _ => .error .parse
  | turns + 1, depth, node, ctx =>
      match ctx.rest with
      | [] => .error .parse
      | byte :: rest =>
          if byte = wbxmlEnd then .ok (node, { ctx with rest })
          else if byte = wbxmlSwitchPage then
            match rest with
            | [] => .error .parse
            | page :: rest =>
                decodeNodeContent turns depth node { ctx with rest, currentCodePage := page }
          else if byte = wbxmlStrI then
            match readInlineString rest with
            | none => .error .parse
            | some (text, rest) =>
                match appendNodeText node text with
                | .error error => .error error
                | .ok node => decodeNodeContent turns depth node { ctx with rest }
          else if byte = wbxmlStrT then
            match readTableString stringTable rest with
            | none => .error .parse
            | some (text, rest) =>
                match appendNodeText node text with
                | .error error => .error error
                | .ok node => decodeNodeContent turns depth node { ctx with rest }
          else if byte = wbxmlOpaque then
            match readMbUint rest with
            | .error error => .error error
            | .ok (length, rest) =>
                if wbxmlMaxOpaqueSize < length then .error .parse
                else if rest.length < length then .error .parse
                else
                  decodeNodeContent turns depth (setNodeOpaque mallocZero node (rest.take length))
                    { ctx with rest := rest.drop length }
          else
            match decodeNode turns (depth + 1) ctx with
            | .error error => .error error
            | .ok (child, ctx) =>
                decodeNodeContent turns depth (mailactivesyncWbxmlNodeAddChild node child) ctx

end

end Decode

def decodeTurns (rest : List UInt8) : Nat := 2 * rest.length

def mailactivesyncWbxmlDecode (mallocZero : Bool) (data : List UInt8) : Except WbxmlError WbxmlDocument :=
  match data with
  | [] => .error .badState
  | version :: rest => do
      let publicId ← readMbUint rest
      let charset ← readMbUint publicId.2
      let stringTable ← readMbUint charset.2
      if wbxmlMaxStringTableSize < stringTable.1 then .error .parse
      else if stringTable.2.length < stringTable.1 then .error .parse
      else
        let body := stringTable.2.drop stringTable.1
        let root ← decodeNode mallocZero (stringTable.2.take stringTable.1) (decodeTurns body) 0 ⟨body, 0, 0⟩
        if root.2.rest ≠ [] then .error .parse
        else .ok ⟨version, UInt32.ofNat publicId.1, UInt32.ofNat charset.1, some root.1⟩

end Etpan.Activesync
