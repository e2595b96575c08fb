import HourlyPrices.Yaml.Token

/-!
# The nodes of a YAML document

The tokens of a text are put together to the tree of nodes of its one document. An alias stays a
reference to the node that its anchor names, so that a node may refer to one that encloses it.
-/

namespace HourlyPrices.Yaml

/-- A node. The tag is missing when the text has none. -/
inductive Node where
  | alias (target : Nat)
  | scalar (tag : Option String) (text : String) (style : ScalarStyle)
  | sequence (tag : Option String) (items : List Node)
  | mapping (tag : Option String) (entries : List (Node × Node))

/-- The node of a place where nothing is written. -/
def Node.blank (tag : Option String) : Node := .scalar tag "" .plain

/-- A document: its root, and the nodes that aliases refer to. -/
structure Document where
  root : Node
  targets : List (Nat × Node)

/-- A reader of nodes between two tokens. -/
structure Composer where
  tokens : List Token
  /-- The meanings of handles in the document. -/
  handles : List (String × String) := []
  /-- The numbers of anchors by their names, the latest first. -/
  anchors : List (String × Nat) := []
  /-- The nodes that anchors name, by their numbers. -/
  targets : List (Nat × Node) := []

/-- Steps of a reader of nodes, which may fail. -/
abbrev Compose := StateT Composer Option

namespace Compose

/-- The next token. -/
def peek : Compose (Option Token) := do return (← get).tokens.head?

/-- Moves behind the next token. -/
def advance : Compose Unit := modify fun c => { c with tokens := c.tokens.tail }

/-- Takes this token, or fails. -/
def expect (t : Token) : Compose Unit := do
  if (← peek) == some t then advance else failure

/-- Takes this token if it comes next, and says whether it did. -/
def accept (t : Token) : Compose Bool := do
  if (← peek) == some t then
    advance
    return true
  else return false

/-- Whether the next token is one of these. -/
def atOneOf (ts : List Token) : Compose Bool := do return (← peek).any (· ∈ ts)

/-- What precedes the content of a node: an anchor and a tag at most, in either order. -/
def properties : Compose (Option String × Option (String × String)) := do
  match ← peek with
  | some (.anchor a) =>
    advance
    match ← peek with
    | some (.tag h s) =>
      advance
      return (some a, some (h, s))
    | _ => return (some a, none)
  | some (.tag h s) =>
    advance
    match ← peek with
    | some (.anchor a) =>
      advance
      return (some a, some (h, s))
    | _ => return (none, some (h, s))
  | _ => return (none, none)

/-- The handles that need no directive. -/
def standardHandles : List (String × String) := [("!", "!"), ("!!", "tag:yaml.org,2002:")]

/-- The tag of a handle and suffix. -/
def fullTag (handle suffix : String) : Compose String := do
  if handle.isEmpty then return suffix
  match ((← get).handles ++ standardHandles).lookup handle with
  | some lead => return lead ++ suffix
  | none => failure

/-- Gives an anchor its number. -/
def declare (name : String) : Compose Nat := do
  let n := (← get).anchors.length
  modify fun c => { c with anchors := (name, n) :: c.anchors }
  return n

/-- The tag of a scalar: that of a lone exclamation mark says nothing. -/
def scalarTag (tag : Option String) : Option String := if tag == some "!" then none else tag

mutual

/-- A node; in a block if `block`, where the items of a sequence need not be indented if `level`. -/
def node (block level : Bool) : Nat → Compose Node
  | 0 => failure
  | fuel + 1 => do
    match ← peek with
    | some (.alias name) =>
      advance
      match (← get).anchors.lookup name with
      | some n => return .alias n
      | none => failure
    | _ =>
      let (anchor, shortTag) ← properties
      let tag ← shortTag.mapM fun (h, s) => fullTag h s
      let number ← anchor.mapM declare
      let n ← content block level (anchor.isSome || tag.isSome) tag fuel
      number.forM fun k => modify fun c => { c with targets := (k, n) :: c.targets }
      return n

/-- The content of a node, which may be missing if the node has properties. -/
def content (block level hasProperties : Bool) (tag : Option String) : Nat → Compose Node
  | 0 => failure
  | fuel + 1 => do
    match ← peek with
    | some (.scalar text style) =>
      advance
      return .scalar (scalarTag tag) text style
    | some .openSequence =>
      advance
      return .sequence tag (← flowItems true fuel)
    | some .openMapping =>
      advance
      return .mapping tag (← flowEntries true fuel)
    | some .item =>
      if level then return .sequence tag (← levelItems fuel)
      else if hasProperties then return .blank tag else failure
    | some .sequenceStart =>
      if block then
        advance
        return .sequence tag (← blockItems fuel)
      else if hasProperties then return .blank tag else failure
    | some .mappingStart =>
      if block then
        advance
        return .mapping tag (← blockEntries fuel)
      else if hasProperties then return .blank tag else failure
    | _ => if hasProperties then return .blank tag else failure

/-- The items of a sequence in a block of its own. -/
def blockItems : Nat → Compose (List Node)
  | 0 => failure
  | fuel + 1 => do
    if ← accept .blockEnd then return []
    expect .item
    let n ← if ← atOneOf [.item, .blockEnd] then pure (.blank none) else node true false fuel
    return n :: (← blockItems fuel)

/-- The items of a sequence at the indentation of the mapping around it. -/
def levelItems : Nat → Compose (List Node)
  | 0 => failure
  | fuel + 1 => do
    if ← accept .item then
      let n ← if ← atOneOf [.item, .key, .value, .blockEnd] then pure (.blank none)
        else node true false fuel
      return n :: (← levelItems fuel)
    else return []

/-- The entries of a mapping in a block; the key or the value of each may be left out. -/
def blockEntries : Nat → Compose (List (Node × Node))
  | 0 => failure
  | fuel + 1 => do
    if ← accept .blockEnd then return []
    expect .key
    let k ← if ← atOneOf [.key, .value, .blockEnd] then pure (.blank none) else node true true fuel
    let v ← if ← accept .value then
        if ← atOneOf [.key, .value, .blockEnd] then pure (.blank none) else node true true fuel
      else pure (.blank none)
    return (k, v) :: (← blockEntries fuel)

/-- The items of a sequence in brackets, behind its first bracket if `first`. -/
def flowItems (first : Bool) : Nat → Compose (List Node)
  | 0 => failure
  | fuel + 1 => do
    if ← accept .closeSequence then return []
    if !first then expect .comma
    if ← accept .closeSequence then return []
    let n ← if ← accept .key then do
        let k ← node false false fuel
        let v ← if ← accept .value then
            if ← atOneOf [.comma, .closeSequence] then pure (.blank none)
            else node false false fuel
          else pure (.blank none)
        pure (.mapping none [(k, v)])
      else node false false fuel
    return n :: (← flowItems false fuel)

/-- The entries of a mapping in braces, behind its first brace if `first`. -/
def flowEntries (first : Bool) : Nat → Compose (List (Node × Node))
  | 0 => failure
  | fuel + 1 => do
    if ← accept .closeMapping then return []
    if !first then expect .comma
    if ← accept .closeMapping then return []
    if ← accept .key then
      let k ← if ← atOneOf [.value, .comma, .closeMapping] then pure (.blank none)
        else node false false fuel
      let v ← if ← accept .value then
          if ← atOneOf [.comma, .closeMapping] then pure (.blank none) else node false false fuel
        else pure (.blank none)
      return (k, v) :: (← flowEntries false fuel)
    else
      let k ← node false false fuel
      return (k, .blank none) :: (← flowEntries false fuel)

end

/-! ## Documents -/

/-- The directives before a document: the versions and the handles that they give a meaning. -/
def directives (versions : Nat) : List Token → Option (List (String × String) × List Token)
  | .version major minor :: ts =>
    if versions == 0 && major == 1 && (minor == 1 || minor == 2) then directives 1 ts else none
  | .handle name lead :: ts => do
    let (handles, rest) ← directives versions ts
    if handles.any (·.1 == name) then none else some ((name, lead) :: handles, rest)
  | ts => some ([], ts)

/-- Whether the tokens go on with a directive or a mark that divides documents, or end. -/
def atDocumentEdge : List Token → Bool
  | [] | .version _ _ :: _ | .handle _ _ :: _ | .documentStart :: _ | .documentEnd :: _ => true
  | _ => false

/-- The tokens of a document behind its head, and the meanings of handles in it. -/
def documentHead (ts : List Token) : Option (List (String × String) × List Token) :=
  match ts with
  | .documentEnd :: _ => none
  | ts =>
    if atDocumentEdge ts then do
      match ← directives 0 ts with
      | (handles, .documentStart :: rest) => some (handles, rest)
      | _ => none
    else some ([], ts)

/-- The root of a document. -/
def root (ts : List Token) : Compose Node :=
  if atDocumentEdge ts then return .blank none else node true false (3 * ts.length + 3)

end Compose

/-- The document of some tokens; a text without any token is the blank document. -/
def Document.ofTokens? (ts : List Token) : Option Document :=
  match ts with
  | [] => some ⟨.blank none, []⟩
  | ts => do
    let (handles, rest) ← Compose.documentHead ts
    let (root, c) ← (Compose.root rest).run { tokens := rest, handles }
    if c.tokens.all (· == .documentEnd) then some ⟨root, c.targets⟩ else none

/-- The document of a text, if there is no more than one. -/
def Document.ofText? (s : String) : Option Document := do
  Document.ofTokens? (← tokens? s.toList)

end HourlyPrices.Yaml
