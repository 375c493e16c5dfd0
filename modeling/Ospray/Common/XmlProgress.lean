import Mathlib
import Ospray.Common.XmlParser
import Ospray.Common.XmlGrammar

/-!
# What the XML parser takes from a text

Every function of the parser that succeeds has moved the pointer on, so the parser comes
to an end: recursion as deep as the text is long is deep enough. A value it returns has
stood between quotes. Counted in apostrophes, the text it has taken had those of the
value, and two more if the value cannot stand between quotation marks.
-/

namespace Ospray.Xml

/-! ## Values -/

/-- Whether a value stands between two quotation marks as it is. -/
def closes (value : Text) : Bool :=
  scanString quotationMark (value ++ [quotationMark]) = some (value, [quotationMark])

/-- What the loop over a value finds stands before the quote, and ends there. -/
theorem scanString_ok {quote : Char} (different : quote ≠ '\\') {s value rest : Text}
    (found : scanString quote s = some (value, rest)) :
    Quotable quote value ∧ ∃ behind, rest = quote :: behind ∧ s = value ++ rest := by
  induction size : s.length using Nat.strongRecOn generalizing s value with
  | ind size inductionHypothesis =>
    cases s with
    | nil => exact absurd found (by simp [scanString])
    | cons c s =>
      by_cases own : c = quote
      · subst own
        rw [scanString_quote] at found
        obtain ⟨rfl, rfl⟩ := Prod.mk.inj (Option.some.inj found)
        exact ⟨.nil, s, rfl, rfl⟩
      · by_cases escape : c = '\\'
        · subst escape
          cases s with
          | nil => exact absurd found (by simp [scanString, own])
          | cons d s =>
            rw [scanString_escaped different] at found
            obtain ⟨⟨inner, behind⟩, same, pair⟩ := Option.map_eq_some_iff.mp found
            obtain ⟨rfl, rfl⟩ := Prod.mk.inj pair
            obtain ⟨quotable, tail, rfl, rfl⟩ := inductionHypothesis s.length (by
              rw [← size]
              simp only [List.length_cons]
              omega) same rfl
            exact ⟨.escaped quotable, tail, rfl, rfl⟩
        · rw [scanString_plain own escape] at found
          obtain ⟨⟨inner, behind⟩, same, pair⟩ := Option.map_eq_some_iff.mp found
          obtain ⟨rfl, rfl⟩ := Prod.mk.inj pair
          obtain ⟨quotable, tail, rfl, rfl⟩ := inductionHypothesis s.length (by
            rw [← size]
            simp only [List.length_cons]
            omega) same rfl
          exact ⟨.plain own escape quotable, tail, rfl, rfl⟩

theorem closes_iff (value : Text) : closes value = true ↔ Quotable quotationMark value := by
  rw [closes, decide_eq_true_eq]
  constructor
  · intro found
    exact (scanString_ok (by decide) found).1
  · intro quotable
    exact scanString_append (by decide) quotable []

/-- The apostrophes that a value needs in a text: its own, and two more unless quotation
marks can enclose it. -/
def valueCost (value : Text) : Nat :=
  value.count apostrophe + if closes value then 0 else 2

/-- The apostrophes the values of properties need. -/
def propertiesCost (properties : Properties) : Nat :=
  (properties.entries.map fun entry => valueCost entry.2).sum

mutual

/-- The apostrophes the values of a node need, with those below it. -/
def Node.cost : Node → Nat
  | { name := _, content := _, properties := properties, child := child } =>
    propertiesCost properties + nodesCost child

/-- The apostrophes the values of several nodes need. -/
def nodesCost : List Node → Nat
  | [] => 0
  | node :: nodes => node.cost + nodesCost nodes

end

theorem nodesCost_append (nodes : List Node) (node : Node) :
    nodesCost (nodes ++ [node]) = nodesCost nodes + node.cost := by
  induction nodes with
  | nil => simp [nodesCost]
  | cons first nodes inductionHypothesis =>
    rw [List.cons_append, nodesCost, inductionHypothesis, nodesCost, Nat.add_assoc]

theorem propertiesCost_insert (properties : Properties) (name value : Text) :
    propertiesCost (properties.insert name value) ≤ propertiesCost properties + valueCost value := by
  induction properties using Finmap.induction_on with
  | H list =>
    have kept : ((List.kerase name list.entries).map fun entry => valueCost entry.2).sum ≤
        (list.entries.map fun entry => valueCost entry.2).sum :=
      ((List.kerase_sublist name list.entries).map _).sum_le_sum fun _ _ => Nat.zero_le _
    simp only [propertiesCost, Finmap.insert_toFinmap, AList.toFinmap_entries, AList.entries_insert,
      Multiset.map_coe, Multiset.sum_coe, List.map_cons, List.sum_cons]
    omega

/-! ## The pointer moves on -/

/-- What was taken from a text had so many apostrophes at least. -/
structure Moves (charge : Nat) (s rest : Text) : Prop where
  suffix : rest <:+ s
  paid : charge + rest.count apostrophe ≤ s.count apostrophe

theorem Moves.of_suffix {s rest : Text} (suffix : rest <:+ s) : Moves 0 s rest where
  suffix := suffix
  paid := by
    rw [Nat.zero_add]
    exact suffix.sublist.count_le apostrophe

theorem Moves.trans {charge further : Nat} {s between rest : Text} (first : Moves charge s between)
    (second : Moves further between rest) : Moves (charge + further) s rest where
  suffix := second.suffix.trans first.suffix
  paid := by
    have before := first.paid
    have behind := second.paid
    omega

theorem Moves.before {charge : Nat} {s between rest : Text} (suffix : between <:+ s)
    (moves : Moves charge between rest) : Moves charge s rest := by
  have both := (Moves.of_suffix suffix).trans moves
  rwa [Nat.zero_add] at both

theorem Moves.behind {charge : Nat} {s between rest : Text} (moves : Moves charge s between)
    (suffix : rest <:+ between) : Moves charge s rest := moves.trans (.of_suffix suffix)

section Inversions

variable {α β : Type} {s rest : Text}

theorem bind_ok {x : Except Error α} {f : α → Except Error β} {b : β} (ok : x >>= f = .ok b) :
    ∃ a, x = .ok a ∧ f a = .ok b := by
  cases x with
  | error => exact absurd ok (by simp [bind, Except.bind])
  | ok a => exact ⟨a, rfl, ok⟩

theorem consume_ok {w : Char} (nonzero : w ≠ Char.ofNat 0) (consumed : consume w s = .ok rest) :
    s = w :: rest := by
  unfold consume at consumed
  split at consumed
  · next same =>
    obtain rfl := Except.ok.inj consumed
    cases s with
    | nil => exact absurd same.symm nonzero
    | cons c s => exact congrArg (· :: s) same
  · exact absurd consumed (by simp)

theorem consumeWord_ok {word : Text} (nonzero : Char.ofNat 0 ∉ word)
    (consumed : consumeWord word s = .ok rest) : s = word ++ rest := by
  have all : word.foldlM (fun s w => consume w s) s = .ok rest := by
    unfold consumeWord at consumed
    split at consumed
    · next same =>
      rw [same]
      exact consumed
    · exact absurd consumed (by simp)
  clear consumed
  induction word generalizing s with
  | nil => exact Except.ok.inj all
  | cons w word inductionHypothesis =>
    rw [List.mem_cons, not_or] at nonzero
    rw [List.foldlM_cons] at all
    obtain ⟨between, first, others⟩ := bind_ok all
    rw [consume_ok (Ne.symm nonzero.1) first, inductionHypothesis nonzero.2 others]
    rfl

theorem findCommentEnd_suffix (s : Text) : findCommentEnd s <:+ s := by
  induction s with
  | nil => exact List.suffix_rfl
  | cons c s inductionHypothesis =>
    unfold findCommentEnd
    split
    · exact List.suffix_rfl
    · exact inductionHypothesis.trans (List.suffix_cons c s)

theorem consumeComment_ok (consumed : consumeComment s = .ok rest) :
    rest <:+ s ∧ rest.length < s.length := by
  unfold consumeComment at consumed
  obtain ⟨first, open_, consumed⟩ := bind_ok consumed
  obtain ⟨second, mark, consumed⟩ := bind_ok consumed
  obtain ⟨third, dash, consumed⟩ := bind_ok consumed
  obtain ⟨fourth, dash', close⟩ := bind_ok consumed
  have ends := findCommentEnd_suffix second
  rw [consume_ok (by decide) dash, consume_ok (by decide) dash', consume_ok (by decide) close] at ends
  rw [consume_ok (by decide) open_, consume_ok (by decide) mark]
  have inside : rest <:+ second := (List.suffix_append ['-', '-', '>'] rest).trans ends
  refine ⟨inside.trans (List.suffix_append ['<', '!'] second), ?_⟩
  have shorter := inside.length_le
  simp only [List.length_cons]
  omega

theorem skipComment_ok (skipped : skipComment s = .ok (some rest)) :
    rest <:+ s ∧ rest.length < s.length := by
  unfold skipComment at skipped
  split at skipped
  · cases same : consumeComment s with
    | error => simp [same, Except.map] at skipped
    | ok between =>
      rw [same] at skipped
      obtain rfl := Option.some.inj (Except.ok.inj skipped)
      exact consumeComment_ok same
  · exact absurd skipped (by simp)

/-- A string has quotes around its value. -/
theorem parseString_ok {value : Text} (parsed : parseString s = .ok (value, rest)) :
    ∃ quote, (quote = quotationMark ∨ quote = apostrophe) ∧ Quotable quote value ∧
      s = quote :: (value ++ quote :: rest) := by
  have quoted : ∀ quote, quote = quotationMark ∨ quote = apostrophe →
      parseQuoted quote s = .ok (value, rest) →
        Quotable quote value ∧ s = quote :: (value ++ quote :: rest) := by
    intro quote quotes parsed
    have different : quote ≠ '\\' ∧ quote ≠ Char.ofNat 0 := by
      rcases quotes with rfl | rfl <;> decide
    unfold parseQuoted at parsed
    obtain ⟨inner, opened, parsed⟩ := bind_ok parsed
    cases found : scanString quote inner with
    | none => simp [found] at parsed
    | some pair =>
      obtain ⟨inside, between⟩ := pair
      rw [found] at parsed
      obtain ⟨behind, closed, parsed⟩ := bind_ok parsed
      obtain ⟨rfl, rfl⟩ := Prod.mk.inj (Except.ok.inj parsed)
      obtain ⟨quotable, -, -, split⟩ := scanString_ok different.1 found
      rw [consume_ok different.2 opened, split, consume_ok different.2 closed]
      exact ⟨quotable, rfl⟩
  unfold parseString at parsed
  split at parsed
  · exact ⟨quotationMark, Or.inl rfl, quoted quotationMark (Or.inl rfl) parsed⟩
  · exact ⟨apostrophe, Or.inr rfl, quoted apostrophe (Or.inr rfl) parsed⟩

theorem parseString_moves {value : Text} (parsed : parseString s = .ok (value, rest)) :
    Moves (valueCost value) s rest ∧ rest.length < s.length := by
  obtain ⟨quote, quotes, quotable, rfl⟩ := parseString_ok parsed
  have split : quote :: (value ++ quote :: rest) = (quote :: (value ++ [quote])) ++ rest := by simp
  refine ⟨⟨split ▸ List.suffix_append _ rest, ?_⟩, ?_⟩
  · rw [split, List.count_append]
    apply Nat.add_le_add_right
    simp only [valueCost, List.count_cons, List.count_append, List.count_nil]
    rcases quotes with rfl | rfl
    · rw [if_pos ((closes_iff value).mpr quotable)]
      omega
    · have own : (apostrophe == apostrophe) = true := by decide
      rw [if_pos own]
      split <;> omega
  · rw [split, List.length_append]
    simp

theorem parseIdentifier_ok {name : Text} (parsed : parseIdentifier s = some (name, rest)) :
    s = name ++ rest ∧ rest.length < s.length := by
  cases s with
  | nil => exact absurd parsed (by simp [parseIdentifier])
  | cons c s =>
    rw [parseIdentifier] at parsed
    split at parsed
    · obtain ⟨rfl, rfl⟩ := Prod.mk.inj (Option.some.inj parsed)
      have shorter := List.length_dropWhile_le isInner s
      refine ⟨by simp, ?_⟩
      rw [List.length_cons]
      omega
    · exact absurd parsed (by simp)

theorem skipWhites_suffix (s : Text) : skipWhites s <:+ s := List.dropWhile_suffix _

/-- A property pays for its value. -/
theorem parseProp_ok {name value : Text} (parsed : parseProp s = .ok (some (name, value, rest))) :
    Moves (valueCost value) s rest ∧ rest.length < s.length := by
  unfold parseProp at parsed
  cases found : parseIdentifier s with
  | none => simp [found] at parsed
  | some pair =>
    obtain ⟨read, behindName⟩ := pair
    rw [found] at parsed
    obtain ⟨behindSign, sign, parsed⟩ := bind_ok parsed
    dsimp only at parsed
    split at parsed
    · exact absurd parsed (by simp)
    · obtain ⟨⟨inside, behind⟩, string, parsed⟩ := bind_ok parsed
      obtain ⟨-, same⟩ := Prod.mk.inj (Option.some.inj (Except.ok.inj parsed))
      obtain ⟨rfl, rfl⟩ := Prod.mk.inj same
      obtain ⟨moves, shorter⟩ := parseString_moves string
      obtain ⟨named, -⟩ := parseIdentifier_ok found
      have signed := consume_ok (by decide) sign
      have suffix : skipWhites behindSign <:+ s := by
        refine (skipWhites_suffix behindSign).trans ?_
        refine (List.suffix_cons '=' behindSign).trans ?_
        rw [← signed, named]
        exact (skipWhites_suffix behindName).trans (List.suffix_append read behindName)
      exact ⟨moves.before suffix, shorter.trans_le suffix.length_le⟩

/-- Properties pay for their values. The induction is on the rounds of the loop. -/
theorem parseProps_ok {fuel : Nat} {before properties : Properties}
    (parsed : parseProps fuel before s = .ok (properties, rest)) :
    ∃ charge, Moves charge s rest ∧ propertiesCost properties ≤ propertiesCost before + charge := by
  induction fuel generalizing before s with
  | zero => exact absurd parsed (by simp [parseProps])
  | succ fuel inductionHypothesis =>
    rw [parseProps] at parsed
    obtain ⟨found, first, parsed⟩ := bind_ok parsed
    cases found with
    | none =>
      obtain ⟨rfl, rfl⟩ := Prod.mk.inj (Except.ok.inj parsed)
      exact ⟨0, .of_suffix List.suffix_rfl, le_rfl⟩
    | some prop =>
      obtain ⟨name, value, behind⟩ := prop
      obtain ⟨charge, others, less⟩ := inductionHypothesis parsed
      obtain ⟨moves, -⟩ := parseProp_ok first
      have one := propertiesCost_insert before name value
      exact ⟨valueCost value + charge, (moves.behind (skipWhites_suffix behind)).trans others,
        by omega⟩

/-- What the loop over a node's items does: it pays for the children it adds. -/
def BodyPays (body : Node → Text → Except Error (Node × Text)) : Prop :=
  ∀ before s node rest, body before s = .ok (node, rest) →
    ∃ charge, Moves charge s rest ∧ node.cost ≤ before.cost + charge

/-- A node pays for its values, and moves the pointer on. -/
theorem parseNode_ok {body : Node → Text → Except Error (Node × Text)} (pays : BodyPays body)
    {node : Node} (parsed : parseNode body s = .ok (node, rest)) :
    (∃ charge, Moves charge s rest ∧ node.cost ≤ charge) ∧ rest.length < s.length := by
  unfold parseNode at parsed
  obtain ⟨opened, mark, parsed⟩ := bind_ok parsed
  have start := consume_ok (by decide) mark
  cases found : parseIdentifier opened with
  | none => simp [found] at parsed
  | some pair =>
    obtain ⟨name, behindName⟩ := pair
    rw [found] at parsed
    obtain ⟨⟨properties, behindProps⟩, props, parsed⟩ := bind_ok parsed
    obtain ⟨charge, moves, cost⟩ := parseProps_ok props
    obtain ⟨named, -⟩ := parseIdentifier_ok found
    have suffix : skipWhites behindName <:+ opened := by
      rw [named]
      exact (skipWhites_suffix behindName).trans (List.suffix_append name behindName)
    have none_ : propertiesCost ∅ = 0 := rfl
    -- Both the empty node and the one with a body have paid for their properties.
    have paid : ∃ further, Moves further behindProps rest ∧
        node.cost ≤ propertiesCost properties + further := by
      dsimp only at parsed
      split at parsed
      · obtain ⟨behind, closed, parsed⟩ := bind_ok parsed
        obtain ⟨rfl, rfl⟩ := Prod.mk.inj (Except.ok.inj parsed)
        rw [consumeWord_ok (by decide) closed]
        exact ⟨0, .of_suffix (List.suffix_append _ _), by simp [Node.cost, nodesCost]⟩
      · obtain ⟨behind, closed, parsed⟩ := bind_ok parsed
        obtain ⟨further, inside, less⟩ := pays _ _ _ _ parsed
        rw [consumeWord_ok (by decide) closed]
        refine ⟨further, inside.before (List.suffix_append _ _), ?_⟩
        simpa [Node.cost, nodesCost] using less
    obtain ⟨further, behind, less⟩ := paid
    have all := (moves.before suffix).trans behind
    refine ⟨⟨charge + further, all.before ?_, by omega⟩, ?_⟩
    · rw [start]
      exact List.suffix_cons '<' opened
    · rw [start, List.length_cons]
      exact Nat.lt_succ_of_le all.suffix.length_le

theorem cost_child (node child : Node) :
    Node.cost { node with child := node.child ++ [child] } = node.cost + child.cost := by
  cases node
  simp only [Node.cost, nodesCost_append, Nat.add_assoc]

theorem cost_content (node : Node) (content : Text) :
    Node.cost { node with content := content } = node.cost := by
  cases node
  rfl

/-- The loop pays for what it adds. The induction is on its rounds, of which those of a
child are part. -/
theorem parseBody_pays (fuel : Nat) : BodyPays (parseBody fuel) := by
  induction fuel with
  | zero =>
    intro before s node rest parsed
    exact absurd parsed (by simp [parseBody])
  | succ fuel inductionHypothesis =>
    intro before s node rest parsed
    rw [parseBody] at parsed
    have skipped := skipWhites_suffix s
    obtain ⟨found, comment, parsed⟩ := bind_ok parsed
    cases found with
    | some behind =>
      obtain ⟨charge, moves, less⟩ := inductionHypothesis _ _ _ _ parsed
      exact ⟨charge, moves.before ((skipComment_ok comment).1.trans skipped), less⟩
    | none =>
      dsimp only at parsed
      split at parsed
      · -- the end tag
        obtain ⟨behindMark, mark, parsed⟩ := bind_ok parsed
        have inside := consumeWord_ok (by decide) mark
        have named : ((parseIdentifier behindMark).getD ([], behindMark)).2 <:+ behindMark := by
          cases name : parseIdentifier behindMark with
          | none => exact List.suffix_rfl
          | some pair =>
            obtain ⟨split, -⟩ := @parseIdentifier_ok behindMark pair.2 pair.1 name
            rw [split]
            exact List.suffix_append pair.1 pair.2
        split at parsed
        · exact absurd parsed (by simp)
        · obtain ⟨behind, closed, parsed⟩ := bind_ok parsed
          obtain ⟨rfl, rfl⟩ := Prod.mk.inj (Except.ok.inj parsed)
          rw [consumeWord_ok (by decide) closed] at named
          have suffix := (List.suffix_append ['>'] behind).trans named
          rw [inside] at skipped
          exact ⟨0, .of_suffix ((suffix.trans (List.suffix_append _ _)).trans skipped), le_rfl⟩
      · split at parsed
        · -- a child
          obtain ⟨⟨child, behind⟩, first, parsed⟩ := bind_ok parsed
          obtain ⟨⟨charge, moves, cost⟩, -⟩ := parseNode_ok inductionHypothesis first
          obtain ⟨further, others, less⟩ := inductionHypothesis _ _ _ _ parsed
          rw [cost_child] at less
          dsimp only at less
          exact ⟨charge + further, (moves.before skipped).trans others, by omega⟩
        · split at parsed
          · -- the end of the text
            obtain ⟨rfl, rfl⟩ := Prod.mk.inj (Except.ok.inj parsed)
            exact ⟨0, .of_suffix skipped, le_rfl⟩
          · split at parsed
            · exact absurd parsed (by simp)
            · split at parsed
              · exact absurd parsed (by simp)
              · -- a content
                obtain ⟨charge, moves, less⟩ := inductionHypothesis _ _ _ _ parsed
                rw [cost_content] at less
                exact ⟨charge, moves.before ((List.dropWhile_suffix _).trans skipped), less⟩

/-- The nodes of a document pay for their values. -/
theorem parseNodes_ok {fuel : Nat} {before nodes : List Node}
    (parsed : parseNodes fuel before s = .ok (nodes, rest)) :
    ∃ charge, Moves charge s rest ∧ nodesCost nodes ≤ nodesCost before + charge := by
  induction fuel generalizing before s with
  | zero => exact absurd parsed (by simp [parseNodes])
  | succ fuel inductionHypothesis =>
    rw [parseNodes] at parsed
    split at parsed
    · obtain ⟨rfl, rfl⟩ := Prod.mk.inj (Except.ok.inj parsed)
      exact ⟨0, .of_suffix List.suffix_rfl, le_rfl⟩
    · obtain ⟨found, comment, parsed⟩ := bind_ok parsed
      cases found with
      | some behind =>
        obtain ⟨charge, moves, less⟩ := inductionHypothesis parsed
        exact ⟨charge, moves.before ((skipWhites_suffix behind).trans (skipComment_ok comment).1), less⟩
      | none =>
        obtain ⟨⟨node, behind⟩, first, parsed⟩ := bind_ok parsed
        obtain ⟨⟨charge, moves, cost⟩, -⟩ := parseNode_ok (parseBody_pays fuel) first
        obtain ⟨further, others, less⟩ := inductionHypothesis parsed
        rw [nodesCost_append] at less
        exact ⟨charge + further, (moves.behind (skipWhites_suffix behind)).trans others, by omega⟩

/-- The header is passed over. -/
theorem parseHeader_ok (parsed : parseHeader s = .ok (some rest)) : rest <:+ s := by
  unfold parseHeader at parsed
  obtain ⟨behind, word, parsed⟩ := bind_ok parsed
  have start := consumeWord_ok (by decide) word
  have closing : ∀ between, (consumeWord ['?', '>'] between).map some = .ok (some rest) →
      rest <:+ between := by
    intro between closed
    cases same : consumeWord ['?', '>'] between with
    | error => simp [same, Except.map] at closed
    | ok last =>
      rw [same] at closed
      obtain rfl := Option.some.inj (Except.ok.inj closed)
      rw [consumeWord_ok (by decide) same]
      exact List.suffix_append _ _
  have suffix : rest <:+ behind := by
    split at parsed
    · exact closing behind parsed
    · split at parsed
      · exact absurd parsed (by simp)
      · obtain ⟨⟨properties, between⟩, props, parsed⟩ := bind_ok parsed
        obtain ⟨charge, moves, -⟩ := parseProps_ok props
        exact ((closing between parsed).trans moves.suffix).trans
          ((skipWhites_suffix behind.tail).trans (List.tail_suffix behind))
  rw [start]
  exact suffix.trans (List.suffix_append _ _)

/-- A document has the apostrophes that its nodes need. -/
theorem parseXML_pays {nodes : List Node} (parsed : parseXML s = .ok (nodes, rest)) :
    nodesCost nodes ≤ s.count apostrophe := by
  unfold parseXML at parsed
  obtain ⟨behind, header, parsed⟩ := bind_ok parsed
  have suffix : behind <:+ s := by
    unfold skipHeader at header
    split at header
    · obtain ⟨found, first, header⟩ := bind_ok header
      cases found with
      | none => exact absurd header (by simp)
      | some between =>
        obtain rfl := Except.ok.inj header
        exact parseHeader_ok first
    · obtain rfl := Except.ok.inj header
      exact List.suffix_rfl
  obtain ⟨⟨read, last⟩, all, parsed⟩ := bind_ok parsed
  obtain ⟨charge, moves, less⟩ := parseNodes_ok all
  dsimp only at parsed
  split at parsed
  · exact absurd parsed (by simp)
  · obtain ⟨rfl, rfl⟩ := Prod.mk.inj (Except.ok.inj parsed)
    have paid := (moves.before ((skipWhites_suffix behind).trans suffix)).paid
    have none_ : nodesCost [] = 0 := rfl
    omega

end Inversions

/-! ## Recursion as deep as the text is long -/

section Depth

variable {α β : Type}

theorem deep_bind {x : Except Error α} {f : α → Except Error β} (first : x ≠ .error .fuel)
    (next : ∀ a, x = .ok a → f a ≠ .error .fuel) : x >>= f ≠ .error .fuel := by
  cases x with
  | error problem => exact fun same => first (congrArg Except.error (Except.error.inj same))
  | ok a => exact next a rfl

theorem deep_map {x : Except Error α} {f : α → β} (first : x ≠ .error .fuel) :
    x.map f ≠ .error .fuel := by
  cases x with
  | error problem => exact fun same => first (congrArg Except.error (Except.error.inj same))
  | ok a => simp [Except.map]

theorem consume_deep (w : Char) (s : Text) : consume w s ≠ .error .fuel := by
  unfold consume
  split <;> simp

theorem consumeWord_deep (word s : Text) : consumeWord word s ≠ .error .fuel := by
  unfold consumeWord
  split <;> simp

theorem skipComment_deep (s : Text) : skipComment s ≠ .error .fuel := by
  unfold skipComment
  split
  · refine deep_map ?_
    unfold consumeComment
    refine deep_bind (consume_deep _ _) fun _ _ => deep_bind (consume_deep _ _) fun _ _ => ?_
    exact deep_bind (consume_deep _ _) fun _ _ => deep_bind (consume_deep _ _) fun _ _ =>
      consume_deep _ _
  · simp

theorem parseProp_deep (s : Text) : parseProp s ≠ .error .fuel := by
  have quoted : ∀ quote s, parseQuoted quote s ≠ .error .fuel := by
    intro quote s
    unfold parseQuoted
    refine deep_bind (consume_deep _ _) fun inner _ => ?_
    split
    · simp
    · exact deep_bind (consume_deep _ _) fun _ _ => by simp
  unfold parseProp
  split
  · simp
  · refine deep_bind (consume_deep _ _) fun behind _ => ?_
    dsimp only
    split
    · simp
    · refine deep_bind ?_ fun _ _ => by simp
      unfold parseString
      split
      · exact quoted _ _
      · exact quoted _ _

/-- The loop over properties has at most as many rounds as there are characters. -/
theorem parseProps_deep (fuel : Nat) (properties : Properties) {s : Text} (enough : s.length < fuel) :
    parseProps fuel properties s ≠ .error .fuel := by
  induction fuel generalizing properties s with
  | zero => exact absurd enough (Nat.not_lt_zero _)
  | succ fuel inductionHypothesis =>
    rw [parseProps]
    refine deep_bind (parseProp_deep s) fun found first => ?_
    cases found with
    | none => simp
    | some prop =>
      obtain ⟨name, value, rest⟩ := prop
      have shorter := (parseProp_ok first).2
      have skipped := (skipWhites_suffix rest).length_le
      exact inductionHypothesis _ (by omega)

/-- A node is as deep as what stands between its tags. -/
theorem parseNode_deep {body : Node → Text → Except Error (Node × Text)} {s : Text}
    (inside : ∀ node rest, rest.length < s.length → body node rest ≠ .error .fuel) :
    parseNode body s ≠ .error .fuel := by
  unfold parseNode
  refine deep_bind (consume_deep _ _) fun opened mark => ?_
  have start := consume_ok (by decide) mark
  cases found : parseIdentifier opened with
  | none => simp
  | some pair =>
    obtain ⟨name, behindName⟩ := pair
    refine deep_bind (parseProps_deep _ _ (Nat.lt_succ_self _)) fun result props => ?_
    obtain ⟨properties, behindProps⟩ := result
    dsimp only
    split
    · exact deep_bind (consumeWord_deep _ _) fun _ _ => by simp
    · refine deep_bind (consumeWord_deep _ _) fun behind closed => ?_
      apply inside
      obtain ⟨charge, moves, -⟩ := parseProps_ok props
      have named := (parseIdentifier_ok found).2
      have skipped := (skipWhites_suffix behindName).length_le
      have passed := moves.suffix.length_le
      rw [consumeWord_ok (by decide) closed] at passed
      rw [start, List.length_cons]
      simp only [List.singleton_append, List.length_cons] at passed
      omega

/-- Every round of the loop over items takes a character. -/
theorem parseBody_deep (fuel : Nat) (node : Node) {s : Text} (enough : s.length < fuel) :
    parseBody fuel node s ≠ .error .fuel := by
  induction fuel generalizing node s with
  | zero => exact absurd enough (Nat.not_lt_zero _)
  | succ fuel inductionHypothesis =>
    have skipped := (skipWhites_suffix s).length_le
    rw [parseBody]
    refine deep_bind (skipComment_deep _) fun found comment => ?_
    cases found with
    | some rest =>
      have shorter := (skipComment_ok comment).2
      exact inductionHypothesis _ (by omega)
    | none =>
      dsimp only
      split
      · refine deep_bind (consumeWord_deep _ _) fun _ _ => ?_
        split
        · simp
        · exact deep_bind (consumeWord_deep _ _) fun _ _ => by simp
      · split
        · refine deep_bind (parseNode_deep fun child rest shorter =>
            inductionHypothesis child (by omega)) fun result first => ?_
          obtain ⟨child, rest⟩ := result
          have shorter := (parseNode_ok (parseBody_pays fuel) first).2
          exact inductionHypothesis _ (by dsimp only; omega)
        · next noTag =>
          split
          · simp
          · next noEnd =>
            split
            · simp
            · split
              · simp
              · apply inductionHypothesis
                cases start : skipWhites s with
                | nil =>
                  rw [start] at noEnd
                  exact absurd rfl noEnd
                | cons c rest =>
                  rw [start, peek_cons] at noTag noEnd
                  have content : isContent c = true := by simp [isContent, noTag, noEnd]
                  have shorter := List.length_dropWhile_le isContent rest
                  rw [start, List.length_cons] at skipped
                  rw [List.dropWhile_cons_of_pos content]
                  omega

/-- So does every round of the loop over the nodes of a document. -/
theorem parseNodes_deep (fuel : Nat) (nodes : List Node) {s : Text} (enough : s.length < fuel) :
    parseNodes fuel nodes s ≠ .error .fuel := by
  induction fuel generalizing nodes s with
  | zero => exact absurd enough (Nat.not_lt_zero _)
  | succ fuel inductionHypothesis =>
    rw [parseNodes]
    split
    · simp
    · refine deep_bind (skipComment_deep _) fun found comment => ?_
      cases found with
      | some rest =>
        have shorter := (skipComment_ok comment).2
        have skipped := (skipWhites_suffix rest).length_le
        exact inductionHypothesis _ (by omega)
      | none =>
        refine deep_bind (parseNode_deep fun child rest shorter =>
          parseBody_deep fuel child (by omega)) fun result first => ?_
        obtain ⟨node, rest⟩ := result
        have shorter := (parseNode_ok (parseBody_pays fuel) first).2
        have skipped := (skipWhites_suffix rest).length_le
        exact inductionHypothesis _ (by omega)

/-- The depth that `parseXML` is given is enough for every text. -/
theorem parseXML_deep (s : Text) : parseXML s ≠ .error .fuel := by
  have header : parseHeader s ≠ .error .fuel := by
    unfold parseHeader
    refine deep_bind (consumeWord_deep _ _) fun behind _ => ?_
    split
    · exact deep_map (consumeWord_deep _ _)
    · split
      · simp
      · exact deep_bind (parseProps_deep _ _ (Nat.lt_succ_self _)) fun _ _ =>
          deep_map (consumeWord_deep _ _)
  unfold parseXML
  refine deep_bind ?_ fun rest _ => ?_
  · unfold skipHeader
    split
    · refine deep_bind header fun found _ => ?_
      cases found <;> simp
    · simp
  · refine deep_bind (parseNodes_deep _ _ (Nat.lt_succ_self _)) fun _ _ => ?_
    dsimp only
    split <;> simp

end Depth

end Ospray.Xml
