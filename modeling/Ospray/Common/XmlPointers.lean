import Ospray.Common.XmlParser

/-!
# The pointers of the XML parser

The functions of the parser, with the pointer as an index into the bytes of the text. Behind the
bytes stands a zero. Reading any other byte is outside, and a substring must not end before it
starts; both are kept as results, so that nothing is read that is not there.
-/

namespace Ospray.Xml.Pointers

/-- An exception, and not one of the errors of the model. -/
def isException : Error → Bool
  | .undefined | .fuel => false
  | _ => true

/-- What ends a function early: an exception, a byte before the first or behind the zero, a substring that
ends before it starts, or a loop with more rounds than expected. -/
inductive Stop where
  | thrown (error : Error) (exception : isException error = true)
  | outside (index : Int)
  | negative (start stop : Nat)
  | rounds

section

variable (bytes : Text)

/-- A byte of the text, or the zero behind it. -/
def byte (index : Int) : Except Stop Char :=
  if 0 ≤ index ∧ index ≤ bytes.length then .ok (peek (bytes.drop index.toNat)) else .error (.outside index)

/-- `*s == w0 && s[1] == w1` -/
def starts (w0 w1 : Char) (s : Nat) : Except Stop Bool := do
  if (← byte bytes s) = w0 then
    return (← byte bytes (s + 1)) = w1
  else return false

/-- A `while` loop: where the pointer stops, and how it moves on. -/
def advance (stops : Nat → Except Stop Bool) (next : Nat → Except Stop Nat) : Nat → Nat → Except Stop Nat
  | 0, _ => .error .rounds
  | rounds + 1, s => do
    if ← stops s then return s
    else
      let s ← next s
      advance stops next rounds s

/-- A loop over the characters that satisfy a predicate. -/
def skipWhile (holds : Char → Bool) (s : Nat) : Except Stop Nat :=
  advance (fun s => do return !holds (← byte bytes s)) (fun s => pure (s + 1)) (bytes.length + 2) s

/-- `consume`, for a character. -/
def consume (w : Char) (s : Nat) : Except Stop Nat := do
  let c ← byte bytes s
  if c = w then return s + 1 else .error (.thrown (.expecting w c) rfl)

/-- `consume`, for a word, which throws an exception of its own. -/
def consumeWord (word : Text) (s : Nat) : Except Stop Nat :=
  match word.foldlM (fun s w => consume bytes w s) s with
  | .ok s => .ok s
  | .error (.thrown _ _) => .error (.thrown (.expectingWord word) rfl)
  | .error stop => .error stop

/-- What the loop of `consumeComment` looks for. -/
def atCommentEnd (s : Nat) : Except Stop Bool := do
  let c ← byte bytes s
  if c = Char.ofNat 0 then return true
  else if c = '-' then
    if ← starts bytes '-' '>' (s + 1) then return true else return false
  else return false

/-- `consumeComment` -/
def consumeComment (s : Nat) : Except Stop Nat := do
  let s ← consume bytes '<' s
  let s ← consume bytes '!' s
  let s ← advance (atCommentEnd bytes) (fun s => pure (s + 1)) (bytes.length + 2) s
  let s ← consume bytes '-' s
  let s ← consume bytes '-' s
  consume bytes '>' s

/-- `skipComment` -/
def skipComment (s : Nat) : Except Stop (Option Nat) := do
  if ← starts bytes '<' '!' s then
    let s ← consumeComment bytes s
    return some s
  else return none

/-- `makeString` -/
def makeString (start stop : Nat) : Except Stop Text :=
  if stop < start then .error (.negative start stop) else .ok ((bytes.drop start).take (stop - start))

/-- How the loop of `parseString` moves on. -/
def stepString (s : Nat) : Except Stop Nat := do
  let c ← byte bytes s
  if c = '\\' then return s + 2 else return s + 1

/-- One of the two branches of `parseString`. -/
def parseQuoted (quote : Char) (s : Nat) : Except Stop (Text × Nat) := do
  let start ← consume bytes quote s
  let stop ← advance (fun s => do return (← byte bytes s) = quote) (stepString bytes) (bytes.length + 2) start
  let value ← makeString bytes start stop
  let s ← consume bytes quote stop
  return (value, s)

/-- `parseString` -/
def parseString (s : Nat) : Except Stop (Text × Nat) := do
  if (← byte bytes s) = quotationMark then parseQuoted bytes quotationMark s else parseQuoted bytes apostrophe s

/-- `parseIdentifier` -/
def parseIdentifier (s : Nat) : Except Stop (Option (Text × Nat)) := do
  if isInitial (← byte bytes s) then
    let stop ← skipWhile bytes isInner (s + 1)
    let identifier ← makeString bytes s stop
    return some (identifier, stop)
  else return none

/-- `skipWhites` -/
def skipWhites (s : Nat) : Except Stop Nat := skipWhile bytes isWhite s

/-- `parseProp` -/
def parseProp (s : Nat) : Except Stop (Option (Text × Text × Nat)) := do
  match ← parseIdentifier bytes s with
  | none => return none
  | some (name, s) =>
    let s ← skipWhites bytes s
    let s ← consume bytes '=' s
    let s ← skipWhites bytes s
    let c ← byte bytes s
    if c ≠ quotationMark && c ≠ apostrophe then
      .error (.thrown (.expectingEither quotationMark apostrophe c) rfl)
    else
      let (value, s) ← parseString bytes s
      return some (name, value, s)

/-- The loop over the properties of a node, or of the header. -/
def parseProps : Nat → Properties → Nat → Except Stop (Properties × Nat)
  | 0, _, _ => .error .rounds
  | rounds + 1, properties, s => do
    match ← parseProp bytes s with
    | none => return (properties, s)
    | some (name, value, s) =>
      let s ← skipWhites bytes s
      parseProps rounds (properties.insert name value) s

/-- `parseNode`, where what follows the opening tag is read by `body`. -/
def parseNode (body : Node → Nat → Except Stop (Node × Nat)) (s : Nat) : Except Stop (Node × Nat) := do
  let s ← consume bytes '<' s
  match ← parseIdentifier bytes s with
  | none => .error (.thrown .nodeName rfl)
  | some (name, s) =>
    let s ← skipWhites bytes s
    let (properties, s) ← parseProps bytes (bytes.length - s + 1) ∅ s
    let node : Node := { name := name, content := [], properties := properties, child := [] }
    if (← byte bytes s) = '/' then
      let s ← consumeWord bytes ['/', '>'] s
      return (node, s)
    else
      let s ← consumeWord bytes ['>'] s
      body node s

/-- The loop that moves the end of a content back. -/
def trim : Nat → Nat → Except Stop Nat
  | 0, _ => .error .rounds
  | rounds + 1, stop => do
    if isspace (← byte bytes (stop - 1 : Int)) then trim rounds (stop - 1) else return stop

/-- The loop of `parseNode` over what stands between the tags of a node. -/
def parseBody : Nat → Node → Nat → Except Stop (Node × Nat)
  | 0, _, _ => .error .rounds
  | rounds + 1, node, s => do
    let s ← skipWhites bytes s
    match ← skipComment bytes s with
    | some s => parseBody rounds node s
    | none =>
      if ← starts bytes '<' '/' s then
        let s ← consumeWord bytes ['<', '/'] s
        let (nodeName, s) := (← parseIdentifier bytes s).getD ([], s)
        if nodeName ≠ node.name then .error (.thrown (.invalidNode node.name nodeName) rfl)
        else
          let s ← consumeWord bytes ['>'] s
          return (node, s)
      else
        let c ← byte bytes s
        if c = '<' then
          let (child, s) ← parseNode bytes (parseBody rounds) s
          parseBody rounds { node with child := node.child ++ [child] } s
        else if c = Char.ofNat 0 then return (node, s)
        else if node.content ≠ [] then .error (.thrown .twoContents rfl)
        else
          let behind ← skipWhile bytes isContent s
          let stop ← trim bytes (bytes.length + 2) behind
          let content ← makeString bytes s stop
          parseBody rounds { node with content := content } behind

/-- `parseHeader` -/
def parseHeader (s : Nat) : Except Stop (Option Nat) := do
  let s ← consumeWord bytes ['<', '?', 'x', 'm', 'l'] s
  if ← starts bytes '?' '>' s then
    let s ← consumeWord bytes ['?', '>'] s
    return some s
  else if !isWhite (← byte bytes s) then return none
  else
    let s ← skipWhites bytes (s + 1)
    let (_, s) ← parseProps bytes (bytes.length - s + 1) ∅ s
    let s ← consumeWord bytes ['?', '>'] s
    return some s

/-- The loop of `parseXML` over the nodes of the document. -/
def parseNodes : Nat → List Node → Nat → Except Stop (List Node × Nat)
  | 0, _, _ => .error .rounds
  | rounds + 1, child, s => do
    if (← byte bytes s) = Char.ofNat 0 then return (child, s)
    else
      match ← skipComment bytes s with
      | some s =>
        let s ← skipWhites bytes s
        parseNodes rounds child s
      | none =>
        let (node, s) ← parseNode bytes (parseBody bytes rounds) s
        let s ← skipWhites bytes s
        parseNodes rounds (child ++ [node]) s

/-- What `parseXML` does with a header, if there is one. -/
def skipHeader (s : Nat) : Except Stop Nat := do
  if ← starts bytes '<' '?' s then
    match ← parseHeader bytes s with
    | none => .error (.thrown .header rfl)
    | some s => return s
  else return s

/-- `parseXML`, from the first byte on. -/
def parseXML : Except Stop (List Node) := do
  let s ← skipHeader bytes 0
  let s ← skipWhites bytes s
  let (child, s) ← parseNodes bytes (bytes.length - s + 1) [] s
  if (← byte bytes s) ≠ Char.ofNat 0 then .error (.thrown .junk rfl) else return child

end

end Ospray.Xml.Pointers
