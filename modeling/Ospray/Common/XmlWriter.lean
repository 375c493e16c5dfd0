import Mathlib
import Ospray.Common.XmlParser
import Ospray.Common.XmlGrammar
import Ospray.Common.XmlProgress

/-!
# Writing XML and reading it again

`xml::Writer` keeps a stack of open nodes. The start of a node leaves its tag open for
properties, and nothing closes it before a child is written: the flag that says that a
node has content is never set. So a node with children is not read again. Values are
written as they are, and one is only read again if the quotation marks and the last
backslash in it are escaped.

That nothing else is read again is an argument about apostrophes. The writer encloses
values in quotation marks, so all apostrophes of the text belong to values. A value that
quotation marks cannot enclose can only be read between apostrophes, for which there are
none left.
-/

namespace Ospray.Xml

/-! ## The writer -/

/-- `Writer::State`. -/
structure State where
  hasContent : Bool
  type : Text
deriving DecidableEq

/-- `Writer`: what has been written, and the stack of open nodes, the top first. -/
structure Writer where
  xml : Text
  state : List State
deriving DecidableEq

/-- `spaces`. -/
def Writer.spaces (self : Writer) : Writer :=
  { self with xml := self.xml ++ List.flatten (List.replicate self.state.length [' ', ' ']) }

/-- The text of a written property. -/
def written (property : Text × Text) : Text :=
  ' ' :: (property.1 ++ '=' :: quotationMark :: (property.2 ++ [quotationMark]))

/-- `writeProperty`. Nothing stands for a failed assertion. -/
def Writer.writeProperty (self : Writer) (name value : Text) : Option Writer :=
  match self.state with
  | [] => none
  | s :: _ =>
    if s.hasContent then none else some { self with xml := self.xml ++ written (name, value) }

/-- `openNode`. -/
def Writer.openNode (self : Writer) (type : Text) : Writer :=
  let spaced := self.spaces
  { xml := spaced.xml ++ '<' :: type, state := { hasContent := false, type := type } :: self.state }

/-- `closeNode`. -/
def Writer.closeNode (self : Writer) : Option Writer :=
  match self.state with
  | [] => none
  | s :: rest =>
    some
      { xml := self.xml ++ (if s.hasContent then endTag s.type else ['/', '>', '\n'])
        state := rest }

/-! ## Trees -/

/-- A node to be written, without its children: its name and its properties are
identifiers, the latter different from each other, and its values have no zero. -/
structure Element where
  name : Text
  properties : List (Text × Text)
  identifier : IsIdentifier name
  identifiers : ∀ property ∈ properties, IsIdentifier property.1
  distinct : (properties.map Prod.fst).Nodup
  nonzero : ∀ property ∈ properties, Char.ofNat 0 ∉ property.2

/-- Trees one after the other: the first with its children, and the others. -/
inductive Forest where
  | nil
  | tree (element : Element) (child : Forest) (others : Forest)

/-- The calls of the writer for trees: `openNode`, `writeProperty` for each property, the
calls for the children, `closeNode`. -/
def Forest.write : Forest → Writer → Option Writer
  | .nil, writer => some writer
  | .tree element child others, writer => do
    let writer ← element.properties.foldlM
      (fun writer property => writer.writeProperty property.1 property.2)
      (writer.openNode element.name)
    let writer ← child.write writer
    let writer ← writer.closeNode
    others.write writer

/-- The map of properties that have different names. -/
def Element.map (self : Element) : Properties :=
  self.properties.foldl (fun properties property => properties.insert property.1 property.2) ∅

/-- The nodes that trees stand for. -/
def Forest.nodes : Forest → List Node
  | .nil => []
  | .tree element child others =>
    { name := element.name, content := [], properties := element.map, child := child.nodes } ::
      others.nodes

/-- What the parser makes of a written tree. -/
def reread (element : Element) (child : Forest) : Option (Except Error (List Node × Text)) :=
  ((Forest.tree element child .nil).write { xml := [], state := [] }).map fun writer =>
    parseXML writer.xml

/-! ## The written text -/

/-- The text of trees below so many open nodes. -/
def Forest.text : Forest → Nat → Text
  | .nil, _ => []
  | .tree element child others, depth =>
    List.flatten (List.replicate depth [' ', ' ']) ++ '<' :: (element.name ++
      (element.properties.flatMap written ++
        (child.text (depth + 1) ++ '/' :: '>' :: '\n' :: others.text depth)))

theorem writeProperties (properties : List (Text × Text)) (xml : Text) (type : Text)
    (state : List State) :
    properties.foldlM (fun (writer : Writer) property => writer.writeProperty property.1 property.2)
        { xml := xml, state := { hasContent := false, type := type } :: state } =
      some { xml := xml ++ properties.flatMap written
             state := { hasContent := false, type := type } :: state } := by
  induction properties generalizing xml with
  | nil => simp
  | cons property properties inductionHypothesis =>
    rw [List.foldlM_cons, List.flatMap_cons, ← List.append_assoc]
    exact inductionHypothesis _

theorem write_eq (forest : Forest) (xml : Text) (state : List State) :
    forest.write { xml := xml, state := state } =
      some { xml := xml ++ forest.text state.length, state := state } := by
  induction forest generalizing xml state with
  | nil => simp [Forest.write, Forest.text]
  | tree element child others childHypothesis othersHypothesis =>
    rw [Forest.write, Writer.openNode, writeProperties]
    simp only [bind, Option.bind, childHypothesis, Writer.closeNode, othersHypothesis,
      Bool.false_eq_true, if_false, Writer.spaces]
    simp [Forest.text]

theorem reread_eq (element : Element) (child : Forest) :
    reread element child = some (parseXML ('<' :: (element.name ++
      (element.properties.flatMap written ++ (child.text 1 ++ ['/', '>', '\n']))))) := by
  rw [reread, write_eq]
  simp [Forest.text]

/-! ## Apostrophes -/

/-- All values of trees. -/
def Forest.values : Forest → List Text
  | .nil => []
  | .tree element child others =>
    element.properties.map Prod.snd ++ (child.values ++ others.values)

theorem count_identifier {name : Text} (identifier : IsIdentifier name) :
    name.count apostrophe = 0 := by
  rw [List.count_eq_zero]
  cases name with
  | nil => exact absurd identifier id
  | cons c name =>
    obtain ⟨initial, inner⟩ := identifier
    intro member
    rcases List.mem_cons.mp member with rfl | inside
    · exact absurd initial (by decide)
    · exact absurd (inner apostrophe inside) (by decide)

theorem count_spaces (depth : Nat) :
    (List.flatten (List.replicate depth [' ', ' '])).count apostrophe = 0 := by
  rw [List.count_eq_zero]
  intro member
  obtain ⟨piece, pieces, inside⟩ := List.mem_flatten.mp member
  rw [(List.mem_replicate.mp pieces).2] at inside
  exact absurd inside (by decide)

/-- Written properties have those of their values. -/
theorem count_written {properties : List (Text × Text)}
    (identifiers : ∀ property ∈ properties, IsIdentifier property.1) :
    (properties.flatMap written).count apostrophe =
      ((properties.map Prod.snd).map (List.count apostrophe)).sum := by
  induction properties with
  | nil => rfl
  | cons property properties inductionHypothesis =>
    have own := count_identifier (identifiers property List.mem_cons_self)
    have others := inductionHypothesis fun other member =>
      identifiers other (List.mem_cons_of_mem _ member)
    have one : (written property).count apostrophe = property.2.count apostrophe := by
      obtain ⟨space, sign, quote⟩ :
          ' ' ≠ apostrophe ∧ '=' ≠ apostrophe ∧ quotationMark ≠ apostrophe := by decide
      rw [written, List.count_cons_of_ne space, List.count_append, List.count_cons_of_ne sign,
        List.count_cons_of_ne quote, List.count_append, List.count_cons_of_ne quote, own]
      simp
    rw [List.flatMap_cons, List.count_append, others, one]
    rfl

theorem count_text (forest : Forest) (depth : Nat) :
    (forest.text depth).count apostrophe =
      (forest.values.map (List.count apostrophe)).sum := by
  induction forest generalizing depth with
  | nil => rfl
  | tree element child others childHypothesis othersHypothesis =>
    simp only [Forest.text, Forest.values, List.count_append, List.count_cons, count_spaces,
      count_identifier element.identifier, count_written element.identifiers, childHypothesis,
      othersHypothesis, List.map_append, List.sum_append]
    simp [apostrophe]

theorem mem_assigned (properties : List (Text × Text)) (name : Text) :
    name ∈ properties.foldl (fun properties property => properties.insert property.1 property.2)
        (∅ : Properties) ↔ name ∈ properties.map Prod.fst := by
  induction properties using List.reverseRecOn with
  | nil => simp [Finmap.notMem_empty]
  | append_singleton properties property inductionHypothesis =>
    rw [List.foldl_append, List.foldl_cons, List.foldl_nil, Finmap.mem_insert, inductionHypothesis]
    simp [or_comm]

/-- Properties of different names need the apostrophes of all their values. -/
theorem cost_assigned {properties : List (Text × Text)} (distinct : (properties.map Prod.fst).Nodup) :
    propertiesCost (properties.foldl (fun properties property =>
        properties.insert property.1 property.2) ∅) =
      ((properties.map Prod.snd).map valueCost).sum := by
  induction properties using List.reverseRecOn with
  | nil => rfl
  | append_singleton properties property inductionHypothesis =>
    rw [List.map_append, List.nodup_append] at distinct
    obtain ⟨before, -, apart⟩ := distinct
    have new : property.1 ∉ properties.foldl (fun properties property =>
        properties.insert property.1 property.2) (∅ : Properties) := by
      rw [mem_assigned]
      intro member
      exact apart _ member _ (by simp) rfl
    rw [List.foldl_append, List.foldl_cons, List.foldl_nil, propertiesCost,
      Finmap.entries_insert_of_notMem new, Multiset.map_cons, Multiset.sum_cons]
    change valueCost property.2 + propertiesCost _ = _
    rw [inductionHypothesis before]
    simp [Nat.add_comm]

theorem cost_nodes (forest : Forest) :
    nodesCost forest.nodes = (forest.values.map valueCost).sum := by
  induction forest with
  | nil => rfl
  | tree element child others childHypothesis othersHypothesis =>
    rw [Forest.nodes, nodesCost, Node.cost, childHypothesis, othersHypothesis, Element.map,
      cost_assigned element.distinct, Forest.values]
    simp [Nat.add_assoc]

/-- When values need no more apostrophes than they have, quotation marks can enclose all
of them. -/
theorem closes_of_cost {values : List Text}
    (paid : (values.map valueCost).sum ≤ (values.map (List.count apostrophe)).sum) :
    ∀ value ∈ values, closes value = true := by
  induction values with
  | nil => simp
  | cons value values inductionHypothesis =>
    have least : ∀ values : List Text,
        (values.map (List.count apostrophe)).sum ≤ (values.map valueCost).sum := fun values =>
      List.sum_le_sum fun value _ => Nat.le_add_right _ _
    have others := least values
    simp only [List.map_cons, List.sum_cons] at paid
    have own : closes value = true := by
      by_contra open_
      rw [valueCost, if_neg open_] at paid
      omega
    rw [valueCost, if_pos own] at paid
    simp only [List.mem_cons, forall_eq_or_imp]
    exact ⟨own, inductionHypothesis (by omega)⟩

/-! ## The written tag -/

/-- When quotation marks can enclose its values, a written tag is one of the grammar, with
any white space behind it. The induction is on the properties: what follows one, up to the
next, belongs to its syntax. -/
theorem written_props {properties : List (Text × Text)}
    (identifiers : ∀ property ∈ properties, IsIdentifier property.1)
    (nonzero : ∀ property ∈ properties, Char.ofNat 0 ∉ property.2)
    (quotable : ∀ property ∈ properties, Quotable quotationMark property.2) {behind : Text}
    (white : White behind) : ∃ (gap : Text) (props : List PropSyntax), White gap ∧
      (props ≠ [] → gap ≠ []) ∧
        gap ++ propsText props = properties.flatMap written ++ behind ∧
          props.map (fun prop => (prop.name, prop.value)) = properties := by
  induction properties with
  | nil => exact ⟨behind, [], white, fun some_ => absurd rfl some_, by simp [propsText], rfl⟩
  | cons property properties inductionHypothesis =>
    obtain ⟨gap, props, whiteGap, -, text, same⟩ := inductionHypothesis
      (fun other member => identifiers other (List.mem_cons_of_mem _ member))
      (fun other member => nonzero other (List.mem_cons_of_mem _ member))
      (fun other member => quotable other (List.mem_cons_of_mem _ member))
    let first : PropSyntax :=
      { name := property.1
        beforeSign := []
        afterSign := []
        quote := quotationMark
        value := property.2
        after := gap
        identifier := identifiers property List.mem_cons_self
        whiteBefore := by simp [White]
        whiteAfter := by simp [White]
        quotes := Or.inl rfl
        quotable := quotable property List.mem_cons_self
        nonzero := nonzero property List.mem_cons_self
        gap := whiteGap }
    refine ⟨[' '], first :: props, ?_, by simp, ?_, ?_⟩
    · intro c member
      rw [List.mem_singleton.mp member]
      decide
    · rw [propsText] at text
      rw [List.flatMap_cons, List.append_assoc, ← text, propsText, List.flatMap_cons]
      simp [first, PropSyntax.text, PropSyntax.assigned, written]
    · rw [List.map_cons, same]

theorem written_tag (element : Element)
    (quotable : ∀ property ∈ element.properties, Quotable quotationMark property.2) {behind : Text}
    (white : White behind) : ∃ tag : TagSyntax, tag.name = element.name ∧
      propsMap tag.props = element.map ∧
        tag.text = '<' :: (element.name ++ (element.properties.flatMap written ++ behind)) := by
  obtain ⟨gap, props, whiteGap, separated, text, same⟩ :=
    written_props element.identifiers element.nonzero quotable white
  refine ⟨{ name := element.name, gap := gap, props := props, identifier := element.identifier
            white := whiteGap, separated := separated }, rfl, ?_, ?_⟩
  · rw [← propsMap_eq, Element.map, ← same, List.foldl_map]
  · rw [TagSyntax.text, text]

/-- A node without children is read again when quotation marks can enclose its values. -/
theorem reread_leaf (element : Element)
    (quotable : ∀ property ∈ element.properties, Quotable quotationMark property.2) :
    reread element .nil = some (.ok ((Forest.tree element .nil .nil).nodes, [])) := by
  obtain ⟨tag, name, properties, text⟩ := @written_tag element quotable [] (by simp [White])
  have read := parseXML_reads ⟨none, .empty tag (.white '\n' rfl .nil)⟩
  have document : DocumentSyntax.text ⟨none, .empty tag (.white '\n' rfl .nil)⟩ =
      '<' :: (element.name ++ (element.properties.flatMap written ++
        (Forest.text .nil 1 ++ ['/', '>', '\n']))) := by
    simp [DocumentSyntax.text, Items.text, text, Forest.text]
  rw [document] at read
  rw [reread_eq, read]
  simp [Items.nodes, Forest.nodes, name, properties]

/-- A node with children is not: the tag of the first child stands where that of the node
should end. -/
theorem reread_parent (element first : Element) (child others : Forest)
    (quotable : ∀ property ∈ element.properties, Quotable quotationMark property.2)
    (result : List Node × Text) :
    reread element (.tree first child others) ≠ some (.ok result) := by
  have white : White [' ', ' '] := by
    intro c member
    have same : c = ' ' := by simpa using member
    rw [same]
    decide
  obtain ⟨tag, -, -, text⟩ := written_tag element quotable white
  obtain ⟨rest, same⟩ : ∃ rest, '<' :: (element.name ++ (element.properties.flatMap written ++
      ((Forest.tree first child others).text 1 ++ ['/', '>', '\n']))) = tag.text ++ '<' :: rest := by
    refine ⟨first.name ++ (first.properties.flatMap written ++ (child.text 2 ++
      '/' :: '>' :: '\n' :: others.text 1)) ++ ['/', '>', '\n'], ?_⟩
    rw [text]
    simp [Forest.text]
  have fails : ∀ body, parseNode body (tag.text ++ '<' :: rest) =
      .error (.expectingWord ['>']) := by
    intro body
    rw [parseNode_append body tag rest marks.1.2.1 (by decide) marks.2.2.1, if_neg (by decide)]
    rfl
  obtain ⟨inner, starts, initial⟩ := peekNext_tag tag ('<' :: rest)
  have noWhite := skipWhites_tag tag ('<' :: rest)
  have noHeader : skipHeader (tag.text ++ '<' :: rest) = .ok (tag.text ++ '<' :: rest) := by
    rw [skipHeader, if_neg]
    rw [starts, peekNext, List.tail_cons]
    intro mark
    have header : peek inner = '?' := by simpa using mark
    rw [header] at initial
    exact absurd initial (by decide)
  rw [reread_eq, same, parseXML, noHeader]
  simp only [bind, Except.bind, noWhite, parseNodes_node, fails]
  exact fun wrong => absurd (Option.some.inj wrong) (by simp)

/-- A written tree is read again, as the tree it is, exactly if it is one node without
children and quotation marks can enclose all its values. -/
theorem reread_iff (element : Element) (child : Forest) :
    reread element child = some (.ok ((Forest.tree element child .nil).nodes, [])) ↔
      child = .nil ∧ ∀ property ∈ element.properties, closes property.2 = true := by
  constructor
  · intro read
    have paid : nodesCost (Forest.tree element child .nil).nodes ≤
        ((Forest.tree element child .nil).text 0).count apostrophe := by
      rw [reread, write_eq] at read
      exact parseXML_pays (Option.some.inj read)
    rw [cost_nodes, count_text] at paid
    have closing := closes_of_cost paid
    have own : ∀ property ∈ element.properties, closes property.2 = true := by
      intro property member
      apply closing
      exact List.mem_append_left _ (List.mem_map_of_mem member)
    cases child with
    | nil => exact ⟨rfl, own⟩
    | tree first inside others =>
      exact absurd read (reread_parent element first inside others
        (fun property member => (closes_iff _).mp (own property member)) _)
  · rintro ⟨rfl, closing⟩
    exact reread_leaf element fun property member => (closes_iff _).mp (closing property member)

/-- A node without properties. -/
def plainElement (c : Char) (initial : isInitial c = true) : Element where
  name := [c]
  properties := []
  identifier := ⟨initial, by simp⟩
  identifiers := by simp
  distinct := by simp
  nonzero := by simp

/-- A node with one child is not read again. -/
theorem child_not_reread : ¬ ∀ (element : Element) (child : Forest),
    reread element child = some (.ok ((Forest.tree element child .nil).nodes, [])) := by
  intro identity
  have read := identity (plainElement 'a' (by decide)) (.tree (plainElement 'b' (by decide)) .nil .nil)
  have fails : (reread (plainElement 'a' (by decide))
      (.tree (plainElement 'b' (by decide)) .nil .nil)).map Except.isOk = some false := by
    decide +kernel
  rw [read] at fails
  exact absurd fails (by simp [Except.isOk, Except.toBool])

end Ospray.Xml
