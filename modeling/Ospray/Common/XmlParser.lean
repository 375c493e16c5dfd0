import Mathlib.Data.Finmap
import Mathlib.Data.List.DropRight
import Mathlib.Data.List.Infix
import Ospray.Library.Literals

/-!
# The XML parser

`parseXML` reads a document by recursive descent, with one pointer into the text that
every function moves on. Here the pointer is the text that is left. A text is a list of
`char`, of which no one is zero but the one that ends it; reading the head of an empty
text gives that zero. Where the source reads on behind the end of the text, or copies a
negative number of characters, its behaviour is undefined, which is an error of its own.

Letters, digits and spaces are those of the "C" locale.
-/

namespace Ospray.Xml

/-- A `std::string`. -/
abbrev Text := List Char

/-- The `properties` of a node, a `std::map`. -/
abbrev Properties := Finmap fun _ : Text => Text

/-- `Node`. -/
structure Node where
  name : Text
  content : Text
  properties : Properties
  child : List Node

/-- The exceptions the parser throws, with what their texts are made of, and two errors of
the model: undefined behaviour, and recursion that is not deep enough. -/
inductive Error where
  | expecting (w found : Char)
  | expectingEither (w0 w1 found : Char)
  | expectingWord (word : Text)
  | nodeName
  | invalidNode (started ended : Text)
  | twoContents
  | header
  | junk
  | undefined
  | fuel
deriving DecidableEq

/-- The quotes. -/
def quotationMark : Char := '"'

/-- The other quotes. -/
def apostrophe : Char := '\''

/-- `isWhite`. -/
def isWhite (s : Char) : Bool := s = ' ' || s = '\t' || s = '\n' || s = '\r'

/-- `isspace`, which has the vertical tab and the form feed as well. -/
def isspace (c : Char) : Bool := isWhite c || c = Char.ofNat 11 || c = Char.ofNat 12

/-- What an identifier starts with. -/
def isInitial (c : Char) : Bool := c.isAlpha || c = '_'

/-- What an identifier goes on with. -/
def isInner (c : Char) : Bool := c.isAlpha || c.isDigit || c = '_' || c = '.'

/-- `*s`. -/
def peek : Text → Char
  | [] => Char.ofNat 0
  | c :: _ => c

@[simp] theorem peek_cons (c : Char) (s : Text) : peek (c :: s) = c := rfl

/-- `s[1]`. -/
def peekNext (s : Text) : Char := peek s.tail

/-- `consume`, for a character. -/
def consume (w : Char) (s : Text) : Except Error Text :=
  if peek s = w then .ok s.tail else .error (.expecting w (peek s))

/-- `consume`, for a word. -/
def consumeWord (word s : Text) : Except Error Text :=
  match word.foldlM (fun s w => consume w s) s with
  | .ok s => .ok s
  | .error _ => .error (.expectingWord word)

/-- The loop of `consumeComment`, up to the end mark or the end of the text. -/
def findCommentEnd : Text → Text
  | [] => []
  | c :: s =>
    if c = Char.ofNat 0 || (c = '-' && peek s = '-' && peekNext s = '>') then c :: s
    else findCommentEnd s

/-- `consumeComment`. -/
def consumeComment (s : Text) : Except Error Text := do
  let s ← consume '<' s
  let s ← consume '!' s
  let s := findCommentEnd s
  let s ← consume '-' s
  let s ← consume '-' s
  consume '>' s

/-- `skipComment`, with nothing where there is none. -/
def skipComment (s : Text) : Except Error (Option Text) :=
  if peek s = '<' && peekNext s = '!' then (consumeComment s).map some else .ok none

/-- The loop of `parseString`: the characters before the quote, and the text from there
on. A character after a backslash is not looked at. Without a quote the loop leaves the
text. -/
def scanString (quote : Char) : Text → Option (Text × Text)
  | [] => none
  | c :: s =>
    if c = quote then some ([], c :: s)
    else if c = '\\' then
      match s with
      | [] => none
      | d :: s => (scanString quote s).map fun found => (c :: d :: found.1, found.2)
    else (scanString quote s).map fun found => (c :: found.1, found.2)

/-- One of the two branches of `parseString`. -/
def parseQuoted (quote : Char) (s : Text) : Except Error (Text × Text) := do
  let s ← consume quote s
  match scanString quote s with
  | none => .error .undefined
  | some (value, s) =>
    let s ← consume quote s
    .ok (value, s)

/-- `parseString`. -/
def parseString (s : Text) : Except Error (Text × Text) :=
  if peek s = quotationMark then parseQuoted quotationMark s else parseQuoted apostrophe s

/-- `parseIdentifier`, with nothing where there is none. -/
def parseIdentifier : Text → Option (Text × Text)
  | [] => none
  | c :: s =>
    if isInitial c then some (c :: s.takeWhile isInner, s.dropWhile isInner) else none

/-- `skipWhites`. -/
def skipWhites (s : Text) : Text := s.dropWhile isWhite

/-- `parseProp`, with nothing where there is none. -/
def parseProp (s : Text) : Except Error (Option (Text × Text × Text)) :=
  match parseIdentifier s with
  | none => .ok none
  | some (name, s) => do
    let s ← consume '=' (skipWhites s)
    let s := skipWhites s
    if peek s ≠ quotationMark && peek s ≠ apostrophe then
      .error (.expectingEither quotationMark apostrophe (peek s))
    else
      let (value, s) ← parseString s
      .ok (some (name, value, s))

/-- The loop over the properties of a node, or of the header. -/
def parseProps : Nat → Properties → Text → Except Error (Properties × Text)
  | 0, _, _ => .error .fuel
  | fuel + 1, properties, s => do
    match ← parseProp s with
    | none => .ok (properties, s)
    | some (name, value, s) => parseProps fuel (properties.insert name value) (skipWhites s)

/-- `parseNode`, where what follows the opening tag is read by `body`. -/
def parseNode (body : Node → Text → Except Error (Node × Text)) (s : Text) :
    Except Error (Node × Text) := do
  let s ← consume '<' s
  match parseIdentifier s with
  | none => .error .nodeName
  | some (name, s) =>
    let s := skipWhites s
    let (properties, s) ← parseProps (s.length + 1) ∅ s
    let node : Node := { name := name, content := [], properties := properties, child := [] }
    if peek s = '/' then
      let s ← consumeWord ['/', '>'] s
      .ok (node, s)
    else
      let s ← consumeWord ['>'] s
      body node s

/-- The characters of a content: up to the next tag or the end of the text. -/
def isContent (c : Char) : Bool := c ≠ '<' && c ≠ Char.ofNat 0

/-- The loop of `parseNode` over what stands between the tags of a node. Where the text
ends first, the node is returned as it is. A content of vertical tabs and form feeds only
is empty, unless white space stands before it: then its end is moved before its start. -/
def parseBody : Nat → Node → Text → Except Error (Node × Text)
  | 0, _, _ => .error .fuel
  | fuel + 1, node, text => do
    let s := skipWhites text
    match ← skipComment s with
    | some s => parseBody fuel node s
    | none =>
      if peek s = '<' && peekNext s = '/' then
        let s ← consumeWord ['<', '/'] s
        let (nodeName, s) := (parseIdentifier s).getD ([], s)
        if nodeName ≠ node.name then .error (.invalidNode node.name nodeName)
        else
          let s ← consumeWord ['>'] s
          .ok (node, s)
      else if peek s = '<' then
        let (child, s) ← parseNode (parseBody fuel) s
        parseBody fuel { node with child := node.child ++ [child] } s
      else if peek s = Char.ofNat 0 then .ok (node, s)
      else if node.content ≠ [] then .error .twoContents
      else
        let content := (s.takeWhile isContent).rdropWhile isspace
        if content = [] && s.length < text.length then .error .undefined
        else parseBody fuel { node with content := content } (s.dropWhile isContent)

/-- `parseHeader`, with nothing where it returns `false`. -/
def parseHeader (s : Text) : Except Error (Option Text) := do
  let s ← consumeWord ['<', '?', 'x', 'm', 'l'] s
  if peek s = '?' && peekNext s = '>' then (consumeWord ['?', '>'] s).map some
  else if !isWhite (peek s) then .ok none
  else
    let s := skipWhites s.tail
    let (_, s) ← parseProps (s.length + 1) ∅ s
    (consumeWord ['?', '>'] s).map some

/-- The loop of `parseXML` over the nodes of the document. -/
def parseNodes : Nat → List Node → Text → Except Error (List Node × Text)
  | 0, _, _ => .error .fuel
  | fuel + 1, child, s => do
    if peek s = Char.ofNat 0 then .ok (child, s)
    else
      match ← skipComment s with
      | some s => parseNodes fuel child (skipWhites s)
      | none =>
        let (node, s) ← parseNode (parseBody fuel) s
        parseNodes fuel (child ++ [node]) (skipWhites s)

/-- What `parseXML` does with a header, if there is one. -/
def skipHeader (s : Text) : Except Error Text :=
  if peek s = '<' && peekNext s = '?' then do
    match ← parseHeader s with
    | none => .error .header
    | some s => .ok s
  else .ok s

/-- `parseXML`: the nodes of the document, and the text that is left. -/
def parseXML (s : Text) : Except Error (List Node × Text) := do
  let s ← skipHeader s
  let s := skipWhites s
  let (child, s) ← parseNodes (s.length + 1) [] s
  if peek s ≠ Char.ofNat 0 then .error .junk else .ok (child, s)

/-! ## The loop over a value -/

theorem scanString_quote (quote : Char) (s : Text) :
    scanString quote (quote :: s) = some ([], quote :: s) := by
  cases s <;> simp [scanString]

theorem scanString_plain {quote c : Char} (other : c ≠ quote) (unescaped : c ≠ '\\') (s : Text) :
    scanString quote (c :: s) = (scanString quote s).map fun found => (c :: found.1, found.2) := by
  cases s <;> simp [scanString, other, unescaped]

theorem scanString_escaped {quote : Char} (different : quote ≠ '\\') (c : Char) (s : Text) :
    scanString quote ('\\' :: c :: s) =
      (scanString quote s).map fun found => ('\\' :: c :: found.1, found.2) := by
  simp [scanString, Ne.symm different]

end Ospray.Xml
