import Mathlib
import Ospray.Common.XmlParser

/-!
# The documents the XML parser reads

The grammar of the parser, as syntax trees: what stands where in a document, down to each
piece of white space. A tree has a text, which is what a file contains, and nodes, which
is what the file describes. Pieces that must not be adjacent to others, and values that
would end early, cannot be built.

What stands between two tags is one list of items, where the items of a node and those
after it are both part of the tree, so one induction goes through a document. Inside a
node one content may occur, and none outside; the index of the list says whether one may
still follow.
-/

namespace Ospray.Xml

/-! ## Syntax trees -/

/-- White space. -/
def White (w : Text) : Prop := ∀ c ∈ w, isWhite c = true

/-- Letters, digits, underscores and dots, with no digit or dot first. -/
def IsIdentifier : Text → Prop
  | [] => False
  | c :: s => isInitial c = true ∧ ∀ d ∈ s, isInner d = true

/-- What may stand between two quotes: the quote and the backslash only behind a
backslash. -/
inductive Quotable (quote : Char) : Text → Prop where
  | nil : Quotable quote []
  | plain {c : Char} {v : Text} (other : c ≠ quote) (unescaped : c ≠ '\\')
      (rest : Quotable quote v) : Quotable quote (c :: v)
  | escaped {c : Char} {v : Text} (rest : Quotable quote v) : Quotable quote ('\\' :: c :: v)

/-- A property, with white space on both sides of its sign and behind it. -/
structure PropSyntax where
  name : Text
  beforeSign : Text
  afterSign : Text
  quote : Char
  value : Text
  after : Text
  identifier : IsIdentifier name
  whiteBefore : White beforeSign
  whiteAfter : White afterSign
  quotes : quote = quotationMark ∨ quote = apostrophe
  quotable : Quotable quote value
  nonzero : Char.ofNat 0 ∉ value
  gap : White after

/-- The text of a property, from its sign on. -/
def PropSyntax.assigned (self : PropSyntax) : Text :=
  self.beforeSign ++ '=' :: (self.afterSign ++ self.quote :: (self.value ++ self.quote :: self.after))

/-- The text of a property. -/
def PropSyntax.text (self : PropSyntax) : Text := self.name ++ self.assigned

/-- The text of several properties. -/
def propsText (props : List PropSyntax) : Text := props.flatMap PropSyntax.text

/-- Properties as a map. The last value of each name counts. -/
def propsMap (props : List PropSyntax) : Properties :=
  (props.reverse.map fun prop => (⟨prop.name, prop.value⟩ : Sigma fun _ : Text => Text)).toFinmap

/-- A tag without what ends it. There is white space between its name and a property. -/
structure TagSyntax where
  name : Text
  gap : Text
  props : List PropSyntax
  identifier : IsIdentifier name
  white : White gap
  separated : props ≠ [] → gap ≠ []

/-- The text of a tag, without what ends it. -/
def TagSyntax.text (self : TagSyntax) : Text :=
  '<' :: (self.name ++ (self.gap ++ propsText self.props))

/-- A comment: it ends with the first end mark behind its start. -/
structure CommentSyntax where
  body : Text
  unclosed : ¬ ['-', '-', '>'] <:+: body ++ ['-', '-']
  nonzero : Char.ofNat 0 ∉ body

/-- The text of a comment. -/
def CommentSyntax.text (self : CommentSyntax) : Text :=
  '<' :: '!' :: (self.body ++ ['-', '-', '>'])

/-- A content, and the spaces behind it that do not belong to it. -/
structure ContentSyntax where
  content : Text
  spaces : Text
  characters : ∀ c ∈ content, isContent c = true
  nonempty : content ≠ []
  starts : isWhite (content.head nonempty) = false
  ends : isspace (content.getLast nonempty) = false
  trimmed : ∀ c ∈ spaces, isspace c = true

/-- What stands between two tags. The index says whether a content may occur. -/
inductive Items : Bool → Type where
  | nil {contents : Bool} : Items contents
  | white {contents : Bool} (c : Char) (isSpace : isWhite c = true) (rest : Items contents) :
      Items contents
  | comment {contents : Bool} (remark : CommentSyntax) (rest : Items contents) : Items contents
  | content (run : ContentSyntax) (rest : Items false) : Items true
  | empty {contents : Bool} (tag : TagSyntax) (rest : Items contents) : Items contents
  | node {contents : Bool} (tag : TagSyntax) (inside : Items true) (rest : Items contents) :
      Items contents

/-- The text of an end tag. -/
def endTag (name : Text) : Text := '<' :: '/' :: (name ++ ['>'])

/-- The text of items. -/
def Items.text : {contents : Bool} → Items contents → Text
  | _, .nil => []
  | _, .white c _ rest => c :: rest.text
  | _, .comment remark rest => remark.text ++ rest.text
  | _, .content run rest => run.content ++ (run.spaces ++ rest.text)
  | _, .empty tag rest => tag.text ++ ('/' :: '>' :: rest.text)
  | _, .node tag inside rest => tag.text ++ ('>' :: (inside.text ++ (endTag tag.name ++ rest.text)))

/-- The content among items. -/
def Items.contentOf : {contents : Bool} → Items contents → Text
  | _, .nil => []
  | _, .white _ _ rest => rest.contentOf
  | _, .comment _ rest => rest.contentOf
  | _, .content run _ => run.content
  | _, .empty _ rest => rest.contentOf
  | _, .node _ _ rest => rest.contentOf

/-- The nodes among items, in their order. -/
def Items.nodes : {contents : Bool} → Items contents → List Node
  | _, .nil => []
  | _, .white _ _ rest => rest.nodes
  | _, .comment _ rest => rest.nodes
  | _, .content _ rest => rest.nodes
  | _, .empty tag rest =>
    { name := tag.name, content := [], properties := propsMap tag.props, child := [] } :: rest.nodes
  | _, .node tag inside rest =>
    { name := tag.name, content := inside.contentOf, properties := propsMap tag.props
      child := inside.nodes } :: rest.nodes

/-- The header, whose properties count for nothing. -/
structure HeaderSyntax where
  gap : Text
  props : List PropSyntax
  white : White gap
  separated : props ≠ [] → gap ≠ []

/-- The text of a header. -/
def HeaderSyntax.text (self : HeaderSyntax) : Text :=
  ['<', '?', 'x', 'm', 'l'] ++ (self.gap ++ (propsText self.props ++ ['?', '>']))

/-- A document. -/
structure DocumentSyntax where
  header : Option HeaderSyntax
  items : Items false

/-- The text of a document. -/
def DocumentSyntax.text (self : DocumentSyntax) : Text :=
  (self.header.map HeaderSyntax.text).getD [] ++ self.items.text

/-! ## Characters -/

theorem marks : (isInner '=' = false ∧ isInner '<' = false ∧ isInner '/' = false ∧
      isInner '>' = false ∧ isInner '?' = false) ∧
    isWhite '=' = false ∧ isWhite '<' = false ∧ isWhite '/' = false ∧ isWhite '>' = false ∧
      isWhite '?' = false ∧ isWhite (Char.ofNat 0) = false := by
  decide

theorem isInner_of_isWhite {c : Char} (white : isWhite c = true) : isInner c = false := by
  simp only [isWhite, Bool.or_eq_true, decide_eq_true_eq] at white
  obtain ((rfl | rfl) | rfl) | rfl := white <;> decide

theorem isWhite_of_isInitial {c : Char} (initial : isInitial c = true) : isWhite c = false := by
  by_contra white
  have inner := isInner_of_isWhite (Bool.not_eq_false _ ▸ white)
  simp only [isInitial, isInner, Bool.or_eq_true, Bool.or_eq_false_iff] at initial inner
  rcases initial with letter | underscore
  · rw [inner.1.1.1] at letter
    exact Bool.noConfusion letter
  · rw [inner.1.2] at underscore
    exact Bool.noConfusion underscore

/-! ## Pieces of a text -/

theorem peek_white {holds : Char → Prop} {w s : Text} (white : White w)
    (ofWhite : ∀ c, isWhite c = true → holds c) (behind : holds (peek s)) : holds (peek (w ++ s)) := by
  cases w with
  | nil => exact behind
  | cons c w => exact ofWhite c (white c List.mem_cons_self)

theorem skipWhites_append {w s : Text} (white : White w) (behind : isWhite (peek s) = false) :
    skipWhites (w ++ s) = s := by
  induction w with
  | nil =>
    cases s with
    | nil => rfl
    | cons c s => exact List.dropWhile_cons_of_neg (by simpa [peek] using behind)
  | cons c w inductionHypothesis =>
    have first : isWhite c = true := white c List.mem_cons_self
    rw [List.cons_append, skipWhites, List.dropWhile_cons_of_pos first]
    exact inductionHypothesis fun d member => white d (List.mem_cons_of_mem _ member)

theorem skipWhites_cons {w : Text} {c : Char} (white : White w) (behind : isWhite c = false)
    (s : Text) : skipWhites (w ++ c :: s) = c :: s :=
  skipWhites_append white behind

@[simp] theorem consume_cons (w : Char) (s : Text) : consume w (w :: s) = .ok s := by
  simp [consume, peek]

theorem consumeWord_append (word s : Text) : consumeWord word (word ++ s) = .ok s := by
  have consumed : word.foldlM (fun s w => consume w s) (word ++ s) = .ok s := by
    induction word with
    | nil => rfl
    | cons c word inductionHypothesis =>
      rw [List.foldlM_cons, List.cons_append, consume_cons]
      exact inductionHypothesis
  rw [consumeWord, consumed]

theorem parseIdentifier_append {name s : Text} (identifier : IsIdentifier name)
    (behind : isInner (peek s) = false) : parseIdentifier (name ++ s) = some (name, s) := by
  cases name with
  | nil => exact absurd identifier id
  | cons c name =>
    obtain ⟨initial, inner⟩ := identifier
    have stops : s.takeWhile isInner = [] ∧ s.dropWhile isInner = s := by
      cases s with
      | nil => exact ⟨rfl, rfl⟩
      | cons d s => simpa [peek] using behind
    rw [List.cons_append, parseIdentifier, if_pos initial, List.takeWhile_append_of_pos inner,
      List.dropWhile_append_of_pos inner, stops.1, stops.2, List.append_nil]

theorem scanString_append {quote : Char} {value : Text} (different : quote ≠ '\\')
    (quotable : Quotable quote value) (s : Text) :
    scanString quote (value ++ quote :: s) = some (value, quote :: s) := by
  induction quotable with
  | nil => exact scanString_quote quote s
  | @plain c v other unescaped _ inductionHypothesis =>
    rw [List.cons_append, scanString_plain other unescaped, inductionHypothesis]
    rfl
  | @escaped c v _ inductionHypothesis =>
    rw [List.cons_append, List.cons_append, scanString_escaped different, inductionHypothesis]
    rfl

theorem parseString_append {quote : Char} {value : Text}
    (quotes : quote = quotationMark ∨ quote = apostrophe) (quotable : Quotable quote value) (s : Text) :
    parseString (quote :: (value ++ quote :: s)) = .ok (value, s) := by
  have quoted : parseQuoted quote (quote :: (value ++ quote :: s)) = .ok (value, s) := by
    have different : quote ≠ '\\' := by
      rcases quotes with rfl | rfl <;> decide
    simp only [parseQuoted, consume_cons, bind, Except.bind, scanString_append different quotable]
  rcases quotes with rfl | rfl
  · rw [parseString, if_pos (by rfl), quoted]
  · rw [parseString, if_neg (by simp only [peek]; decide), quoted]

/-! ## Properties and tags -/

theorem isWhite_peek_props {props : List PropSyntax} {s : Text} (behind : isWhite (peek s) = false) :
    isWhite (peek (propsText props ++ s)) = false := by
  cases props with
  | nil => exact behind
  | cons prop props =>
    have identifier := prop.identifier
    rw [propsText, List.flatMap_cons, PropSyntax.text]
    cases same : prop.name with
    | nil =>
      rw [same] at identifier
      exact absurd identifier id
    | cons c name =>
      rw [same] at identifier
      exact isWhite_of_isInitial identifier.1

theorem parseProp_append (prop : PropSyntax) {s : Text} :
    parseProp (prop.text ++ s) = .ok (some (prop.name, prop.value, prop.after ++ s)) := by
  have behindName : isInner (peek (prop.assigned ++ s)) = false := by
    rw [PropSyntax.assigned, List.append_assoc]
    exact peek_white prop.whiteBefore (fun _ => isInner_of_isWhite) marks.1.1
  have sign : skipWhites (prop.assigned ++ s) = '=' :: (prop.afterSign ++
      prop.quote :: (prop.value ++ prop.quote :: (prop.after ++ s))) := by
    rw [PropSyntax.assigned, List.append_assoc]
    refine (skipWhites_cons prop.whiteBefore marks.2.1 _).trans ?_
    simp
  have isQuote : isWhite prop.quote = false ∧
      (prop.quote ≠ quotationMark && prop.quote ≠ apostrophe) = false := by
    rcases prop.quotes with same | same <;> rw [same] <;> decide
  have value := skipWhites_cons prop.whiteAfter isQuote.1
    (prop.value ++ prop.quote :: (prop.after ++ s))
  rw [PropSyntax.text, List.append_assoc, parseProp,
    parseIdentifier_append prop.identifier behindName]
  simp only [sign, consume_cons, bind, Except.bind, value, peek_cons, isQuote.2,
    parseString_append prop.quotes prop.quotable, Bool.false_eq_true, if_false]

theorem parseProp_none {s : Text} (behind : isInitial (peek s) = false) : parseProp s = .ok none := by
  have none_ : parseIdentifier s = none := by
    cases s with
    | nil => rfl
    | cons c s => simpa [parseIdentifier] using behind
  rw [parseProp, none_]

/-- All properties are read. The induction is on the properties, each of which takes one
round of the loop. -/
theorem parseProps_append {props : List PropSyntax} {s : Text} (behind : isInitial (peek s) = false)
    (white : isWhite (peek s) = false) (properties : Properties) {fuel : Nat}
    (enough : props.length < fuel) :
    parseProps fuel properties (propsText props ++ s) =
      .ok (props.foldl (fun properties prop => properties.insert prop.name prop.value) properties,
        s) := by
  induction props generalizing properties fuel with
  | nil =>
    obtain ⟨further, rfl⟩ := Nat.exists_eq_succ_of_ne_zero (Nat.ne_of_gt enough)
    have none_ : parseProp (propsText [] ++ s) = .ok none := parseProp_none behind
    simp only [parseProps, none_, bind, Except.bind]
    rfl
  | cons prop props inductionHypothesis =>
    obtain ⟨further, rfl⟩ := Nat.exists_eq_succ_of_ne_zero (Nat.ne_of_gt (Nat.zero_lt_of_lt enough))
    have next : parseProp (propsText (prop :: props) ++ s) =
        .ok (some (prop.name, prop.value, prop.after ++ (propsText props ++ s))) := by
      rw [propsText, List.flatMap_cons, List.append_assoc]
      exact parseProp_append prop
    have skipped : skipWhites (prop.after ++ (propsText props ++ s)) = propsText props ++ s :=
      skipWhites_append prop.gap (isWhite_peek_props white)
    simp only [parseProps, next, bind, Except.bind, skipped]
    exact inductionHypothesis _ (Nat.lt_of_succ_lt_succ enough)

theorem propsMap_eq (props : List PropSyntax) :
    props.foldl (fun properties prop => properties.insert prop.name prop.value) ∅ =
      propsMap props := by
  apply Finmap.ext_lookup
  intro name
  induction props using List.reverseRecOn with
  | nil => rfl
  | append_singleton props prop inductionHypothesis =>
    rw [List.foldl_append, List.foldl_cons, List.foldl_nil, propsMap, List.reverse_append,
      List.reverse_singleton, List.singleton_append, List.map_cons, Finmap.dlookup_list_toFinmap]
    by_cases own : prop.name = name
    · subst own
      rw [Finmap.lookup_insert, List.dlookup_cons_eq]
    · rw [Finmap.lookup_insert_of_ne _ (Ne.symm own), inductionHypothesis,
        List.dlookup_cons_ne _ _ (Ne.symm own), propsMap, Finmap.dlookup_list_toFinmap]

theorem length_le_propsText (props : List PropSyntax) : props.length ≤ (propsText props).length := by
  induction props with
  | nil => exact le_rfl
  | cons prop props inductionHypothesis =>
    rw [propsText, List.flatMap_cons, List.length_append, List.length_cons]
    have one : 1 ≤ prop.text.length := by
      simp [PropSyntax.text, PropSyntax.assigned]
      omega
    change props.length ≤ (props.flatMap PropSyntax.text).length at inductionHypothesis
    omega

theorem isInner_peek_gap {gap s : Text} {props : List PropSyntax} (white : White gap)
    (separated : props ≠ [] → gap ≠ []) (behind : isInner (peek s) = false) :
    isInner (peek (gap ++ (propsText props ++ s))) = false := by
  cases gap with
  | nil =>
    have none_ : props = [] := by
      by_contra some_
      exact separated some_ rfl
    subst none_
    exact behind
  | cons c gap => exact isInner_of_isWhite (white c List.mem_cons_self)

/-- The node of a tag, before anything between its tags is read. -/
def TagSyntax.node (self : TagSyntax) : Node :=
  { name := self.name, content := [], properties := propsMap self.props, child := [] }

/-- A tag is read up to the character that ends it. -/
theorem parseNode_append (body : Node → Text → Except Error (Node × Text)) (tag : TagSyntax)
    {c : Char} (s : Text) (inner : isInner c = false) (initial : isInitial c = false)
    (white : isWhite c = false) :
    parseNode body (tag.text ++ c :: s) =
      if c = '/' then (consumeWord ['/', '>'] (c :: s)).bind fun s => .ok (tag.node, s)
      else (consumeWord ['>'] (c :: s)).bind fun s => body tag.node s := by
  have named : parseIdentifier (tag.name ++ (tag.gap ++ (propsText tag.props ++ c :: s))) =
      some (tag.name, tag.gap ++ (propsText tag.props ++ c :: s)) :=
    parseIdentifier_append tag.identifier (isInner_peek_gap tag.white tag.separated inner)
  have skipped : skipWhites (tag.gap ++ (propsText tag.props ++ c :: s)) =
      propsText tag.props ++ c :: s :=
    skipWhites_append tag.white (isWhite_peek_props white)
  have enough : tag.props.length < (propsText tag.props ++ c :: s).length + 1 := by
    have texts := length_le_propsText tag.props
    rw [List.length_append]
    omega
  have properties := @parseProps_append tag.props (c :: s) initial white ∅ _ enough
  rw [propsMap_eq] at properties
  rw [TagSyntax.text, List.cons_append, List.append_assoc, List.append_assoc, parseNode]
  simp only [consume_cons, bind, Except.bind, named, skipped, properties, peek_cons]
  rfl

theorem parseNode_empty (body : Node → Text → Except Error (Node × Text)) (tag : TagSyntax)
    (s : Text) : parseNode body (tag.text ++ '/' :: '>' :: s) = .ok (tag.node, s) := by
  rw [parseNode_append body tag _ marks.1.2.2.1 (by decide) marks.2.2.2.1, if_pos rfl]
  have consumed := consumeWord_append ['/', '>'] s
  rw [List.cons_append, List.cons_append, List.nil_append] at consumed
  rw [consumed]
  rfl

theorem parseNode_open (body : Node → Text → Except Error (Node × Text)) (tag : TagSyntax)
    (s : Text) : parseNode body (tag.text ++ '>' :: s) = body tag.node s := by
  rw [parseNode_append body tag _ marks.1.2.2.2.1 (by decide) marks.2.2.2.2.1, if_neg (by decide)]
  have consumed := consumeWord_append ['>'] s
  rw [List.cons_append, List.nil_append] at consumed
  rw [consumed]
  rfl

/-! ## Comments -/

/-- The end of a comment is found. -/
theorem findCommentEnd_append {body : Text} (unclosed : ¬ ['-', '-', '>'] <:+: body ++ ['-', '-'])
    (nonzero : Char.ofNat 0 ∉ body) (s : Text) :
    findCommentEnd (body ++ '-' :: '-' :: '>' :: s) = '-' :: '-' :: '>' :: s := by
  induction body with
  | nil => simp [findCommentEnd, peekNext]
  | cons c body inductionHypothesis =>
    rw [List.mem_cons, not_or] at nonzero
    have further : ¬ ['-', '-', '>'] <:+: body ++ ['-', '-'] := fun infix_ =>
      unclosed (infix_.trans (List.suffix_cons c _).isInfix)
    have goesOn : ¬ (c = '-' ∧ peek (body ++ '-' :: '-' :: '>' :: s) = '-' ∧
        peekNext (body ++ '-' :: '-' :: '>' :: s) = '>') := by
      rintro ⟨rfl, second, third⟩
      apply unclosed
      rcases body with _ | ⟨d, _ | ⟨e, body⟩⟩
      · simp [peekNext] at third
      · simp [peekNext] at third
      · simp only [List.cons_append, peek_cons, peekNext, List.tail_cons] at second third
        subst second third
        exact ⟨[], body ++ ['-', '-'], by simp⟩
    rw [List.cons_append, findCommentEnd, if_neg]
    · exact inductionHypothesis further nonzero.2
    · simp only [Bool.or_eq_true, Bool.and_eq_true, decide_eq_true_eq, not_or]
      exact ⟨Ne.symm nonzero.1, fun closes => goesOn ⟨closes.1.1, closes.1.2, closes.2⟩⟩

theorem skipComment_append (comment : CommentSyntax) (s : Text) :
    skipComment (comment.text ++ s) = .ok (some s) := by
  have found := findCommentEnd_append comment.unclosed comment.nonzero s
  have consumed : consumeComment (comment.text ++ s) = .ok s := by
    rw [CommentSyntax.text, List.cons_append, List.cons_append, List.append_assoc, consumeComment]
    simp only [consume_cons, bind, Except.bind, List.cons_append, List.nil_append, found]
  rw [skipComment, consumed, if_pos]
  · rfl
  · simp [CommentSyntax.text, peekNext]

theorem skipComment_none {s : Text} (behind : ¬ (peek s = '<' ∧ peekNext s = '!')) :
    skipComment s = .ok none := by
  rw [skipComment, if_neg (by simpa using behind)]

/-! ## Between the tags -/

theorem isContent_of_isspace {c : Char} (space : isspace c = true) : isContent c = true := by
  simp only [isspace, isWhite, Bool.or_eq_true, decide_eq_true_eq] at space
  obtain ((((rfl | rfl) | rfl) | rfl) | rfl) | rfl := space <;> decide

theorem rdropWhile_spaces {content gap : Text} (nonempty : content ≠ [])
    (ends : isspace (content.getLast nonempty) = false) (spaces : ∀ c ∈ gap, isspace c = true) :
    (content ++ gap).rdropWhile isspace = content := by
  induction gap using List.reverseRecOn with
  | nil =>
    rw [List.append_nil, List.rdropWhile_eq_self_iff]
    intro _
    simpa using ends
  | append_singleton gap c inductionHypothesis =>
    have last : isspace c = true := spaces c (List.mem_append_right _ (List.mem_singleton.mpr rfl))
    rw [← List.append_assoc, List.rdropWhile_concat_pos _ _ _ last]
    exact inductionHypothesis fun d member => spaces d (List.mem_append_left _ member)

section Body

variable {w : Text} {node : Node} {fuel : Nat} {s : Text}

theorem parseBody_white (white : White w) :
    parseBody fuel node (w ++ '<' :: s) = parseBody fuel node ('<' :: s) := by
  cases fuel with
  | zero => rfl
  | succ fuel =>
    have skipped := skipWhites_cons white marks.2.2.1 s
    have alone := skipWhites_cons (w := []) (c := '<') (by simp [White]) marks.2.2.1 s
    rw [List.nil_append] at alone
    simp only [parseBody, skipped, alone, peek_cons, if_true]

theorem parseBody_comment (white : White w) (comment : CommentSyntax) :
    parseBody (fuel + 1) node (w ++ (comment.text ++ s)) = parseBody fuel node s := by
  have start : parseBody (fuel + 1) node (w ++ (comment.text ++ s)) =
      parseBody (fuel + 1) node (comment.text ++ s) := parseBody_white white
  have skipped : skipWhites (comment.text ++ s) = comment.text ++ s :=
    skipWhites_cons (w := []) (by simp [White]) marks.2.2.1 _
  rw [start]
  simp only [parseBody, skipped, skipComment_append, bind, Except.bind]

theorem parseBody_end (white : White w) (identifier : IsIdentifier node.name) :
    parseBody (fuel + 1) node (w ++ (endTag node.name ++ s)) = .ok (node, s) := by
  have tag : endTag node.name ++ s = '<' :: '/' :: (node.name ++ '>' :: s) := by simp [endTag]
  have skipped := skipWhites_cons white marks.2.2.1 ('/' :: (node.name ++ '>' :: s))
  have none_ : skipComment ('<' :: '/' :: (node.name ++ '>' :: s)) = .ok none :=
    skipComment_none (by simp [peekNext])
  have opened : consumeWord ['<', '/'] ('<' :: '/' :: (node.name ++ '>' :: s)) =
      .ok (node.name ++ '>' :: s) := consumeWord_append ['<', '/'] _
  have closed : consumeWord ['>'] ('>' :: s) = .ok s := consumeWord_append ['>'] s
  have named : parseIdentifier (node.name ++ '>' :: s) = some (node.name, '>' :: s) :=
    parseIdentifier_append identifier marks.1.2.2.2.1
  rw [tag, parseBody]
  simp only [skipped, none_, bind, Except.bind, peek_cons, peekNext, List.tail_cons, decide_true,
    Bool.and_self, if_true, opened, named, Option.getD_some, ne_eq, not_true_eq_false, if_false,
    closed]

theorem peekNext_tag (tag : TagSyntax) (s : Text) :
    ∃ rest, tag.text ++ s = '<' :: rest ∧ isInitial (peek rest) = true := by
  refine ⟨tag.name ++ (tag.gap ++ propsText tag.props) ++ s, by simp [TagSyntax.text], ?_⟩
  have identifier := tag.identifier
  cases same : tag.name with
  | nil =>
    rw [same] at identifier
    exact absurd identifier id
  | cons c name =>
    rw [same] at identifier
    exact identifier.1

/-- Behind a name's start a node is read, and becomes the last child. -/
theorem parseBody_tag (white : White w) {rest : Text} (initial : isInitial (peek rest) = true) :
    parseBody (fuel + 1) node (w ++ '<' :: rest) =
      (parseNode (parseBody fuel) ('<' :: rest)).bind fun found =>
        parseBody fuel { node with child := node.child ++ [found.1] } found.2 := by
  have skipped := skipWhites_cons white marks.2.2.1 rest
  have noComment : peek rest ≠ '!' := by
    intro mark
    rw [mark] at initial
    exact absurd initial (by decide)
  have noEnd : peek rest ≠ '/' := by
    intro mark
    rw [mark] at initial
    exact absurd initial (by decide)
  have none_ : skipComment ('<' :: rest) = .ok none := skipComment_none fun mark => noComment mark.2
  rw [parseBody]
  simp only [skipped, none_, bind, Except.bind, peek_cons, peekNext, List.tail_cons, noEnd,
    decide_true, decide_false, Bool.and_false, Bool.false_eq_true, if_false, if_true]

theorem parseBody_child (white : White w) (tag : TagSyntax) :
    parseBody (fuel + 1) node (w ++ (tag.text ++ s)) =
      (parseNode (parseBody fuel) (tag.text ++ s)).bind fun found =>
        parseBody fuel { node with child := node.child ++ [found.1] } found.2 := by
  obtain ⟨rest, starts, initial⟩ := peekNext_tag tag s
  rw [starts]
  exact parseBody_tag white initial

/-- A run of characters up to the next tag or the end of the text is a content without the spaces behind it. Only
spaces behind white space are undefined behaviour. -/
theorem parseBody_run (white : White w) (none_ : node.content = []) {run : Text} (nonempty : run ≠ [])
    (starts : isWhite (run.head nonempty) = false) (characters : ∀ c ∈ run, isContent c = true)
    (ends : isContent (peek s) = false) :
    parseBody (fuel + 1) node (w ++ (run ++ s)) =
      if run.rdropWhile isspace = [] ∧ w ≠ [] then .error .undefined
      else parseBody fuel { node with content := run.rdropWhile isspace } s := by
  have stops : s.takeWhile isContent = [] ∧ s.dropWhile isContent = s := by
    cases s with
    | nil => exact ⟨rfl, rfl⟩
    | cons c s => simpa [peek] using ends
  have taken : (run ++ s).takeWhile isContent = run ∧ (run ++ s).dropWhile isContent = s := by
    rw [List.takeWhile_append_of_pos characters, List.dropWhile_append_of_pos characters, stops.1, stops.2,
      List.append_nil]
    exact ⟨rfl, rfl⟩
  have first : peek (run ++ s) = run.head nonempty := by
    cases run with
    | nil => exact absurd rfl nonempty
    | cons c run => rfl
  have skipped : skipWhites (w ++ (run ++ s)) = run ++ s := skipWhites_append white (by rw [first]; exact starts)
  obtain ⟨noTag, noEnd⟩ : peek (run ++ s) ≠ '<' ∧ peek (run ++ s) ≠ Char.ofNat 0 := by
    rw [first]
    simpa [isContent] using characters _ (List.head_mem nonempty)
  have noComment : skipComment (run ++ s) = .ok none := skipComment_none fun mark => noTag mark.1
  have shorter : decide ((run ++ s).length < (w ++ (run ++ s)).length) = decide (w ≠ []) := by
    rw [decide_eq_decide, @List.length_append _ w, ← List.length_pos_iff]
    omega
  rw [parseBody]
  simp only [skipped, noComment, bind, Except.bind, noTag, noEnd, decide_false, Bool.false_and, Bool.false_eq_true,
    if_false, none_, ne_eq, not_true_eq_false, taken, shorter, Bool.and_eq_true, decide_eq_true_eq]

/-- A content is read up to the next tag, without the spaces before that. -/
theorem parseBody_content (white : White w) (run : ContentSyntax) (none_ : node.content = [])
    {gap : Text} (spaces : ∀ c ∈ gap, isspace c = true) :
    parseBody (fuel + 1) node (w ++ (run.content ++ (gap ++ '<' :: s))) =
      parseBody fuel { node with content := run.content } ('<' :: s) := by
  obtain ⟨content, -, characters, nonempty, starts, ends, -⟩ := run
  have all : ∀ c ∈ content ++ gap, isContent c = true := by
    intro c member
    rcases List.mem_append.mp member with inside | behind
    · exact characters c inside
    · exact isContent_of_isspace (spaces c behind)
  have trimmed := rdropWhile_spaces nonempty ends spaces
  have run := @parseBody_run w node fuel ('<' :: s) white none_ (content ++ gap) (List.append_ne_nil_of_left_ne_nil nonempty _)
    (by rwa [List.head_append_of_ne_nil nonempty]) all rfl
  rw [trimmed, if_neg fun both => nonempty both.1, List.append_assoc] at run
  exact run

/-- Without a content, items start with white space and then a tag or a comment, if
what follows them does. -/
theorem text_split {contents : Bool} (items : Items contents) (outside : contents = false) (s : Text) :
    ∃ w rest, White w ∧ items.text ++ '<' :: s = w ++ '<' :: rest := by
  induction items with
  | nil => exact ⟨[], s, by simp [White], rfl⟩
  | white c isSpace rest inductionHypothesis =>
    obtain ⟨w, behind, white, same⟩ := inductionHypothesis outside
    refine ⟨c :: w, behind, ?_, ?_⟩
    · simpa [White, isSpace] using white
    · rw [Items.text, List.cons_append, same, List.cons_append]
  | comment remark rest => exact ⟨[], _, by simp [White], rfl⟩
  | content run rest => exact absurd outside Bool.noConfusion
  | empty tag rest => exact ⟨[], _, by simp [White], rfl⟩
  | node tag inside rest => exact ⟨[], _, by simp [White], rfl⟩

theorem contentOf_outside {contents : Bool} (items : Items contents) (outside : contents = false) :
    items.contentOf = [] := by
  induction items with
  | nil => rfl
  | white _ _ _ inductionHypothesis => exact inductionHypothesis outside
  | comment _ _ inductionHypothesis => exact inductionHypothesis outside
  | content => exact absurd outside Bool.noConfusion
  | empty _ _ inductionHypothesis => exact inductionHypothesis outside
  | node _ _ _ _ inductionHypothesis => exact inductionHypothesis outside

/-- The items of a node are read, up to and including its end tag. The induction is on the
items; white space that was passed over stays before the text until the next tag, comment
or content. -/
theorem parseBody_items {contents : Bool} (items : Items contents) {w : Text} (white : White w)
    {fuel : Nat} (enough : items.text.length < fuel) (node : Node)
    (identifier : IsIdentifier node.name) (none_ : contents = true → node.content = []) (s : Text) :
    parseBody fuel node (w ++ (items.text ++ (endTag node.name ++ s))) =
      .ok ({ node with content := node.content ++ items.contentOf
                       child := node.child ++ items.nodes }, s) := by
  have noWhite : White [] := by simp [White]
  induction items generalizing w fuel node s with
  | nil =>
    obtain ⟨fuel, rfl⟩ := Nat.exists_eq_add_one.mpr (Nat.zero_lt_of_lt enough)
    rw [Items.text, List.nil_append, parseBody_end white identifier, Items.contentOf, Items.nodes,
      List.append_nil, List.append_nil]
    cases node
    rfl
  | white c isSpace rest inductionHypothesis =>
    have longer : White (w ++ [c]) := by
      intro d member
      rcases List.mem_append.mp member with before | last
      · exact white d before
      · rw [List.mem_singleton.mp last]
        exact isSpace
    have shorter : rest.text.length < fuel := by
      simp only [Items.text, List.length_cons] at enough
      omega
    have passed := inductionHypothesis longer shorter node identifier none_ s
    rw [List.append_assoc, List.singleton_append] at passed
    exact passed
  | comment remark rest inductionHypothesis =>
    obtain ⟨fuel, rfl⟩ := Nat.exists_eq_add_one.mpr (Nat.zero_lt_of_lt enough)
    have shorter : rest.text.length < fuel := by
      simp only [Items.text, CommentSyntax.text, List.length_append, List.length_cons] at enough
      omega
    rw [Items.text, List.append_assoc, parseBody_comment white]
    exact inductionHypothesis noWhite shorter node identifier none_ s
  | content run rest inductionHypothesis =>
    obtain ⟨fuel, rfl⟩ := Nat.exists_eq_add_one.mpr (Nat.zero_lt_of_lt enough)
    have positive : 0 < run.content.length := List.length_pos_iff.mpr run.nonempty
    have shorter : rest.text.length < fuel := by
      simp only [Items.text, List.length_append] at enough
      omega
    -- The content goes up to the next tag or comment, or the end tag.
    obtain ⟨gap, behind, whiteGap, same⟩ :=
      text_split rest rfl ('/' :: (node.name ++ ['>'] ++ s))
    have spaces : ∀ c ∈ run.spaces ++ gap, isspace c = true := by
      intro c member
      rcases List.mem_append.mp member with own | further
      · exact run.trimmed c own
      · simp [isspace, whiteGap c further]
    have split : w ++ ((Items.content run rest).text ++ (endTag node.name ++ s)) =
        w ++ (run.content ++ ((run.spaces ++ gap) ++ '<' :: behind)) := by
      rw [List.append_assoc run.spaces, ← same]
      simp [Items.text, endTag]
    have passed := inductionHypothesis noWhite shorter { node with content := run.content } identifier
      (fun further => absurd further Bool.noConfusion) s
    have again : [] ++ (rest.text ++ (endTag node.name ++ s)) = gap ++ '<' :: behind := by
      rw [← same]
      simp [endTag]
    rw [again, parseBody_white whiteGap] at passed
    have only : rest.contentOf = [] := contentOf_outside rest rfl
    rw [split, parseBody_content white run (none_ rfl) spaces, passed]
    rw [Items.contentOf, Items.nodes, only, none_ rfl, List.append_nil, List.nil_append]
  | empty tag rest inductionHypothesis =>
    obtain ⟨fuel, rfl⟩ := Nat.exists_eq_add_one.mpr (Nat.zero_lt_of_lt enough)
    have shorter : rest.text.length < fuel := by
      simp only [Items.text, List.length_append, List.length_cons] at enough
      omega
    rw [Items.text, List.append_assoc, parseBody_child white, List.cons_append, List.cons_append,
      parseNode_empty]
    refine (inductionHypothesis noWhite shorter
      { node with child := node.child ++ [tag.node] } identifier none_ s).trans ?_
    rw [Items.contentOf, Items.nodes, List.append_assoc]
    rfl
  | node tag inside rest insideHypothesis inductionHypothesis =>
    obtain ⟨fuel, rfl⟩ := Nat.exists_eq_add_one.mpr (Nat.zero_lt_of_lt enough)
    have shorter : inside.text.length < fuel ∧ rest.text.length < fuel := by
      simp only [Items.text, List.length_append, List.length_cons] at enough
      omega
    have child := insideHypothesis noWhite shorter.1 tag.node tag.identifier (fun _ => rfl)
      (rest.text ++ (endTag node.name ++ s))
    rw [Items.text, List.append_assoc, parseBody_child white, List.cons_append, parseNode_open,
      List.append_assoc, List.append_assoc]
    rw [List.nil_append] at child
    change parseBody fuel tag.node (inside.text ++ (endTag tag.name ++
      (rest.text ++ (endTag node.name ++ s)))) = _ at child
    rw [child]
    refine (inductionHypothesis noWhite shorter.2
      { node with child := node.child ++ [{ tag.node with
          content := tag.node.content ++ inside.contentOf
          child := tag.node.child ++ inside.nodes }] } identifier none_ s).trans ?_
    rw [Items.contentOf, Items.nodes, List.append_assoc]
    rfl

end Body

/-! ## Documents -/

theorem skipWhites_tag (tag : TagSyntax) (s : Text) : skipWhites (tag.text ++ s) = tag.text ++ s :=
  skipWhites_cons (w := []) (by simp [White]) marks.2.2.1 _

theorem length_skipWhites_le (s : Text) : (skipWhites s).length ≤ s.length :=
  (List.dropWhile_suffix _).length_le

theorem parseNodes_comment (fuel : Nat) (child : List Node) (remark : CommentSyntax) (s : Text) :
    parseNodes (fuel + 1) child (remark.text ++ s) = parseNodes fuel child (skipWhites s) := by
  have goesOn : peek (remark.text ++ s) ≠ Char.ofNat 0 := by
    rw [CommentSyntax.text, List.cons_append, peek_cons]
    decide
  rw [parseNodes]
  simp only [goesOn, if_false, skipComment_append, bind, Except.bind]

theorem parseNodes_tag (fuel : Nat) (child : List Node) {rest : Text} (initial : isInitial (peek rest) = true) :
    parseNodes (fuel + 1) child ('<' :: rest) =
      (parseNode (parseBody fuel) ('<' :: rest)).bind fun found =>
        parseNodes fuel (child ++ [found.1]) (skipWhites found.2) := by
  have goesOn : '<' ≠ Char.ofNat 0 := by decide
  have noComment : skipComment ('<' :: rest) = .ok none := by
    apply skipComment_none
    rintro ⟨-, mark⟩
    rw [peekNext, List.tail_cons] at mark
    rw [mark] at initial
    exact absurd initial (by decide)
  rw [parseNodes]
  simp only [peek_cons, goesOn, if_false, noComment, bind, Except.bind]

theorem parseNodes_node (fuel : Nat) (child : List Node) (tag : TagSyntax) (s : Text) :
    parseNodes (fuel + 1) child (tag.text ++ s) =
      (parseNode (parseBody fuel) (tag.text ++ s)).bind fun found =>
        parseNodes fuel (child ++ [found.1]) (skipWhites found.2) := by
  obtain ⟨rest, starts, initial⟩ := peekNext_tag tag s
  rw [starts]
  exact parseNodes_tag fuel child initial

/-- The nodes of a document are read. -/
theorem parseNodes_items {contents : Bool} (items : Items contents) (outside : contents = false)
    {fuel : Nat} (enough : (skipWhites items.text).length < fuel) (child : List Node) :
    parseNodes fuel child (skipWhites items.text) = .ok (child ++ items.nodes, []) := by
  have noWhite : White [] := by simp [White]
  induction items generalizing fuel child with
  | nil =>
    obtain ⟨fuel, rfl⟩ := Nat.exists_eq_add_one.mpr (Nat.zero_lt_of_lt enough)
    rw [Items.nodes, List.append_nil]
    rfl
  | white c isSpace rest inductionHypothesis =>
    rw [Items.text, skipWhites, List.dropWhile_cons_of_pos isSpace] at enough ⊢
    exact inductionHypothesis outside enough child
  | comment remark rest inductionHypothesis =>
    obtain ⟨fuel, rfl⟩ := Nat.exists_eq_add_one.mpr (Nat.zero_lt_of_lt enough)
    have starts : skipWhites (remark.text ++ rest.text) = remark.text ++ rest.text :=
      skipWhites_cons (w := []) noWhite marks.2.2.1 _
    have shorter : (skipWhites rest.text).length < fuel := by
      have less := length_skipWhites_le rest.text
      rw [Items.text, starts] at enough
      simp only [CommentSyntax.text, List.length_append, List.length_cons] at enough
      omega
    rw [Items.text, starts, parseNodes_comment]
    exact inductionHypothesis outside shorter child
  | content => exact absurd outside Bool.noConfusion
  | empty tag rest inductionHypothesis =>
    obtain ⟨fuel, rfl⟩ := Nat.exists_eq_add_one.mpr (Nat.zero_lt_of_lt enough)
    have starts := skipWhites_tag tag ('/' :: '>' :: rest.text)
    have shorter : (skipWhites rest.text).length < fuel := by
      have less := length_skipWhites_le rest.text
      rw [Items.text, starts] at enough
      simp only [List.length_append, List.length_cons] at enough
      omega
    rw [Items.text, starts, parseNodes_node, parseNode_empty]
    refine (inductionHypothesis outside shorter _).trans ?_
    rw [Items.nodes, List.append_assoc]
    rfl
  | node tag inside rest _ inductionHypothesis =>
    obtain ⟨fuel, rfl⟩ := Nat.exists_eq_add_one.mpr (Nat.zero_lt_of_lt enough)
    have starts := skipWhites_tag tag ('>' :: (inside.text ++ (endTag tag.name ++ rest.text)))
    have shorter : inside.text.length < fuel ∧ (skipWhites rest.text).length < fuel := by
      have less := length_skipWhites_le rest.text
      rw [Items.text, starts] at enough
      simp only [List.length_append, List.length_cons] at enough
      omega
    have read := parseBody_items inside noWhite shorter.1 tag.node tag.identifier (fun _ => rfl)
      rest.text
    rw [List.nil_append] at read
    change parseBody fuel tag.node (inside.text ++ (endTag tag.name ++ rest.text)) = _ at read
    rw [Items.text, starts, parseNodes_node, parseNode_open, read]
    refine (inductionHypothesis outside shorter.2 _).trans ?_
    rw [Items.nodes, List.append_assoc]
    rfl

/-- A header is read. -/
theorem parseHeader_append (header : HeaderSyntax) (s : Text) :
    parseHeader (header.text ++ s) = .ok (some s) := by
  obtain ⟨gap, props, white, separated⟩ := header
  have consumed : ∀ s, consumeWord ['<', '?', 'x', 'm', 'l'] (['<', '?', 'x', 'm', 'l'] ++ s) = .ok s :=
    consumeWord_append _
  have closed : consumeWord ['?', '>'] ('?' :: '>' :: s) = .ok s := consumeWord_append ['?', '>'] s
  have text : HeaderSyntax.text ⟨gap, props, white, separated⟩ ++ s =
      ['<', '?', 'x', 'm', 'l'] ++ (gap ++ (propsText props ++ '?' :: '>' :: s)) := by
    simp [HeaderSyntax.text]
  rw [text, parseHeader]
  cases gap with
  | nil =>
    have none_ : props = [] := by
      by_contra some_
      exact separated some_ rfl
    subst none_
    simp only [consumed, bind, Except.bind]
    simp only [propsText, List.flatMap_nil, List.nil_append, peek_cons, peekNext, List.tail_cons,
      decide_true, Bool.and_self, if_true, closed]
    rfl
  | cons c gap =>
    have isSpace : isWhite c = true := white c List.mem_cons_self
    have noMark : c ≠ '?' := by
      rintro rfl
      exact absurd isSpace (by decide)
    have skipped : skipWhites (gap ++ (propsText props ++ '?' :: '>' :: s)) =
        propsText props ++ '?' :: '>' :: s :=
      skipWhites_append (fun d member => white d (List.mem_cons_of_mem _ member))
        (isWhite_peek_props marks.2.2.2.2.2.1)
    have enough : props.length < (propsText props ++ '?' :: '>' :: s).length + 1 := by
      have texts := length_le_propsText props
      rw [List.length_append]
      omega
    have read := @parseProps_append props ('?' :: '>' :: s) (by rw [peek_cons]; decide)
      marks.2.2.2.2.2.1 ∅ _ enough
    simp only [consumed, bind, Except.bind]
    simp only [List.cons_append, peek_cons, noMark, decide_false, Bool.false_and,
      Bool.false_eq_true, if_false, isSpace, Bool.not_true, List.tail_cons, skipped, read, closed]
    rfl

theorem noHeader {contents : Bool} (items : Items contents) (outside : contents = false) :
    (peek items.text = '<' && peekNext items.text = '?') = false := by
  have noMark : ∀ (tag : TagSyntax) (s : Text), peekNext (tag.text ++ s) ≠ '?' := by
    intro tag s mark
    obtain ⟨rest, starts, initial⟩ := peekNext_tag tag s
    rw [starts, peekNext, List.tail_cons] at mark
    rw [mark] at initial
    exact absurd initial (by decide)
  cases items with
  | nil => rfl
  | white c isSpace rest =>
    have noTag : c ≠ '<' := by
      rintro rfl
      exact absurd isSpace (by decide)
    simp [Items.text, noTag]
  | comment remark rest => simp [Items.text, CommentSyntax.text, peekNext]
  | content => exact absurd outside Bool.noConfusion
  | empty tag rest => simp [Items.text, noMark]
  | node tag inside rest => simp [Items.text, noMark]

/-- Every document is read to its end, with the nodes it describes: their names, their
properties, their contents and their children, in this order. -/
theorem parseXML_reads (document : DocumentSyntax) :
    parseXML document.text = .ok (document.items.nodes, []) := by
  obtain ⟨header, items⟩ := document
  have read := parseNodes_items items rfl (Nat.lt_succ_self _) []
  rw [List.nil_append] at read
  cases header with
  | none =>
    have text : DocumentSyntax.text ⟨none, items⟩ = items.text := rfl
    have skipped : skipHeader items.text = .ok items.text := by
      rw [skipHeader, noHeader items rfl]
      rfl
    rw [text, parseXML, skipped]
    simp only [bind, Except.bind, read]
    rfl
  | some header =>
    have text : DocumentSyntax.text ⟨some header, items⟩ = header.text ++ items.text := rfl
    have starts : (peek (header.text ++ items.text) = '<' &&
        peekNext (header.text ++ items.text) = '?') = true := by
      simp [HeaderSyntax.text, peekNext]
    have skipped : skipHeader (header.text ++ items.text) = .ok items.text := by
      rw [skipHeader, starts, if_pos rfl, parseHeader_append]
      rfl
    rw [text, parseXML, skipped]
    simp only [bind, Except.bind, read]
    rfl

end Ospray.Xml
