import Ospray.Common.XmlProgress
import Ospray.Common.XmlSimulation

/-!
# Texts that the XML parser does not stay in

The parser looks for the quote that ends a value without regard to the end of the text. And it
moves the end of a content back over spaces, even over the white space that it has skipped before.
The grammar of the texts in which this happens is that of the documents the parser reads, broken
off at such a value or content.
-/

namespace Ospray.Xml

/-! ## Broken texts -/

/-- No quote closes the value. -/
def Unclosed (quote : Char) (text : Text) : Prop :=
  ∀ value behind, Quotable quote value → text ≠ value ++ quote :: behind

/-- A property with a value that is not closed. -/
structure UnclosedProp where
  name : Text
  beforeSign : Text
  afterSign : Text
  quote : Char
  value : Text
  identifier : IsIdentifier name
  whiteBefore : White beforeSign
  whiteAfter : White afterSign
  quotes : quote = quotationMark ∨ quote = apostrophe
  unclosed : Unclosed quote value

/-- The text from the property on. -/
def UnclosedProp.text (self : UnclosedProp) : Text :=
  self.name ++ (self.beforeSign ++ '=' :: (self.afterSign ++ self.quote :: self.value))

/-- Properties, the last of which has a value that is not closed. -/
structure UnclosedProps where
  gap : Text
  props : List PropSyntax
  last : UnclosedProp
  white : White gap
  separated : gap ≠ []

/-- The text from the properties on. -/
def UnclosedProps.text (self : UnclosedProps) : Text := self.gap ++ (propsText self.props ++ self.last.text)

/-- Spaces that are no white space to the parser, with white space among them. -/
structure Blank where
  spaces : Text
  nonempty : spaces ≠ []
  starts : isWhite (spaces.head nonempty) = false
  blank : ∀ c ∈ spaces, isspace c = true

/-- What follows an opening tag, up to its end tag. The index says whether a content may occur. -/
inductive Inside : Text → Bool → Text → Prop where
  | ends {name : Text} {contents : Bool} {w : Text} (white : White w) : Inside name contents (w ++ endTag name)
  | comment {name : Text} {contents : Bool} {w text : Text} (white : White w) (remark : CommentSyntax)
      (rest : Inside name contents text) : Inside name contents (w ++ (remark.text ++ text))
  | empty {name : Text} {contents : Bool} {w text : Text} (white : White w) (tag : TagSyntax)
      (rest : Inside name contents text) : Inside name contents (w ++ (tag.text ++ '/' :: '>' :: text))
  | node {name : Text} {contents : Bool} {w child text : Text} (white : White w) (tag : TagSyntax)
      (inside : Inside tag.name true child) (rest : Inside name contents text) :
      Inside name contents (w ++ (tag.text ++ '>' :: (child ++ text)))
  | content {name w text : Text} (white : White w) (run : ContentSyntax) (rest : Inside name false ('<' :: text)) :
      Inside name true (w ++ (run.content ++ (run.spaces ++ '<' :: text)))
  | blank {name text : Text} (run : Blank) (rest : Inside name true ('<' :: text)) :
      Inside name true (run.spaces ++ '<' :: text)

/-- A text that breaks off at a value that is not closed, or at a content of spaces behind white space. The index
says whether a content may occur. -/
inductive Broken : Bool → Text → Prop where
  | tag {contents : Bool} {w name : Text} (white : White w) (identifier : IsIdentifier name) (props : UnclosedProps) :
      Broken contents (w ++ '<' :: (name ++ props.text))
  | trimmed {w text : Text} (white : White w) (nonempty : w ≠ []) (run : Blank) (ends : text = [] ∨ peek text = '<') :
      Broken true (w ++ (run.spaces ++ text))
  | inside {contents : Bool} {w text : Text} (white : White w) (tag : TagSyntax) (rest : Broken true text) :
      Broken contents (w ++ (tag.text ++ '>' :: text))
  | comment {contents : Bool} {w text : Text} (white : White w) (remark : CommentSyntax) (rest : Broken contents text) :
      Broken contents (w ++ (remark.text ++ text))
  | empty {contents : Bool} {w text : Text} (white : White w) (tag : TagSyntax) (rest : Broken contents text) :
      Broken contents (w ++ (tag.text ++ '/' :: '>' :: text))
  | node {contents : Bool} {w child text : Text} (white : White w) (tag : TagSyntax) (inside : Inside tag.name true child)
      (rest : Broken contents text) : Broken contents (w ++ (tag.text ++ '>' :: (child ++ text)))
  | content {w text : Text} (white : White w) (run : ContentSyntax) (rest : Broken false ('<' :: text)) :
      Broken true (w ++ (run.content ++ (run.spaces ++ '<' :: text)))
  | blank {text : Text} (run : Blank) (rest : Broken true ('<' :: text)) : Broken true (run.spaces ++ '<' :: text)

/-- A document that breaks off in its header, or behind it. -/
inductive BrokenDocument : Text → Prop where
  | header (props : UnclosedProps) : BrokenDocument (['<', '?', 'x', 'm', 'l'] ++ props.text)
  | items (header : Option HeaderSyntax) {text : Text} (rest : Broken false text) :
      BrokenDocument ((header.map HeaderSyntax.text).getD [] ++ text)

/-! ## Values and properties -/

variable {s rest : Text}

theorem scanString_none_iff {quote : Char} (different : quote ≠ '\\') : scanString quote s = none ↔ Unclosed quote s := by
  constructor
  · rintro none_ value behind quotable rfl
    rw [scanString_append different quotable] at none_
    cases none_
  · intro unclosed
    by_contra some_
    obtain ⟨⟨value, rest⟩, found⟩ := Option.ne_none_iff_exists'.mp some_
    obtain ⟨quotable, behind, rfl, same⟩ := scanString_ok different found
    exact unclosed value behind quotable same

theorem peek_dropWhile (holds : Char → Bool) (zero : holds (Char.ofNat 0) = false) (s : Text) :
    holds (peek (s.dropWhile holds)) = false := by
  induction s with
  | nil => exact zero
  | cons c s inductionHypothesis =>
    cases belongs : holds c with
    | true => rwa [List.dropWhile_cons_of_pos belongs]
    | false => rwa [List.dropWhile_cons_of_neg (by simp [belongs]), peek_cons]

theorem white_append (s : Text) : White (s.takeWhile isWhite) ∧ s = s.takeWhile isWhite ++ skipWhites s :=
  ⟨fun _ member => List.mem_takeWhile_imp member, List.takeWhile_append_dropWhile.symm⟩

theorem consume_defined (w : Char) (s : Text) : consume w s ≠ .error .undefined := by
  unfold consume
  split <;> simp

theorem consumeWord_defined (word s : Text) : consumeWord word s ≠ .error .undefined := by
  unfold consumeWord
  split <;> simp

theorem bind_undefined {α β : Type} {x : Except Error α} {f : α → Except Error β} (undefined : x >>= f = .error .undefined) :
    x = .error .undefined ∨ ∃ a, x = .ok a ∧ f a = .error .undefined := by
  cases x with
  | error problem => exact Or.inl (congrArg Except.error (Except.error.inj undefined))
  | ok a => exact Or.inr ⟨a, rfl, undefined⟩

/-- A string is undefined behaviour if it is not closed. -/
theorem parseString_undefined (undefined : parseString s = .error .undefined) :
    ∃ quote value, (quote = quotationMark ∨ quote = apostrophe) ∧ Unclosed quote value ∧ s = quote :: value := by
  have quoted : ∀ quote, quote = quotationMark ∨ quote = apostrophe → parseQuoted quote s = .error .undefined →
      ∃ value, Unclosed quote value ∧ s = quote :: value := by
    intro quote quotes undefined
    have different : quote ≠ '\\' ∧ quote ≠ Char.ofNat 0 := by
      rcases quotes with rfl | rfl <;> decide
    obtain failed | ⟨value, opened, undefined⟩ := bind_undefined undefined
    · exact absurd failed (consume_defined _ _)
    · refine ⟨value, ?_, consume_ok different.2 opened⟩
      rw [← scanString_none_iff different.1]
      by_contra some_
      obtain ⟨⟨read, behind⟩, found⟩ := Option.ne_none_iff_exists'.mp some_
      rw [found] at undefined
      obtain failed | ⟨_, _, done⟩ := bind_undefined undefined
      · exact consume_defined _ _ failed
      · cases done
  unfold parseString at undefined
  split at undefined
  · obtain ⟨value, unclosed, same⟩ := quoted quotationMark (Or.inl rfl) undefined
    exact ⟨quotationMark, value, Or.inl rfl, unclosed, same⟩
  · obtain ⟨value, unclosed, same⟩ := quoted apostrophe (Or.inr rfl) undefined
    exact ⟨apostrophe, value, Or.inr rfl, unclosed, same⟩

theorem parseString_unclosed {quote : Char} {value : Text} (quotes : quote = quotationMark ∨ quote = apostrophe)
    (unclosed : Unclosed quote value) : parseString (quote :: value) = .error .undefined := by
  have different : quote ≠ '\\' := by rcases quotes with rfl | rfl <;> decide
  have quoted : parseQuoted quote (quote :: value) = .error .undefined := by
    simp only [parseQuoted, consume_cons, bind, Except.bind, (scanString_none_iff different).mpr unclosed]
  rcases quotes with rfl | rfl
  · rw [parseString, if_pos (by rfl), quoted]
  · rw [parseString, if_neg (by simp only [peek]; decide), quoted]

theorem parseIdentifier_spec {name : Text} (parsed : parseIdentifier s = some (name, rest)) :
    IsIdentifier name ∧ s = name ++ rest ∧ isInner (peek rest) = false := by
  have split := (parseIdentifier_ok parsed).1
  cases s with
  | nil => cases parsed
  | cons c s =>
    rw [parseIdentifier] at parsed
    by_cases initial : isInitial c = true
    · rw [if_pos initial] at parsed
      obtain ⟨rfl, rfl⟩ := Prod.mk.inj (Option.some.inj parsed)
      exact ⟨⟨initial, fun _ member => List.mem_takeWhile_imp member⟩, split, peek_dropWhile isInner (by decide) s⟩
    · rw [if_neg initial] at parsed
      cases parsed

theorem parseIdentifier_none (parsed : parseIdentifier s = none) : isInitial (peek s) = false := by
  cases s with
  | nil => decide
  | cons c s =>
    rw [parseIdentifier] at parsed
    by_cases initial : isInitial c = true
    · rw [if_pos initial] at parsed
      cases parsed
    · exact eq_false_of_ne_true initial

/-- What a property is read from, with the white space behind it. -/
theorem parseProp_spec {name value : Text} (nonzero : Char.ofNat 0 ∉ s)
    (parsed : parseProp s = .ok (some (name, value, rest))) :
    ∃ prop : PropSyntax, prop.name = name ∧ prop.value = value ∧ s = prop.text ++ skipWhites rest := by
  unfold parseProp at parsed
  cases found : parseIdentifier s with
  | none => simp [found] at parsed
  | some pair =>
    obtain ⟨read, behindName⟩ := pair
    rw [found] at parsed
    obtain ⟨behindSign, sign, parsed⟩ := bind_ok parsed
    dsimp only at parsed
    split at parsed
    · cases parsed
    · obtain ⟨⟨inside, behind⟩, string, parsed⟩ := bind_ok parsed
      obtain ⟨rfl, same⟩ := Prod.mk.inj (Option.some.inj (Except.ok.inj parsed))
      obtain ⟨rfl, rfl⟩ := Prod.mk.inj same
      obtain ⟨identifier, named, -⟩ := parseIdentifier_spec found
      obtain ⟨quote, quotes, quotable, quoted⟩ := parseString_ok string
      have signed := consume_ok (by decide) sign
      obtain ⟨whiteBefore, splitBefore⟩ := white_append behindName
      obtain ⟨whiteAfter, splitAfter⟩ := white_append behindSign
      obtain ⟨gap, splitGap⟩ := white_append behind
      have whole : s = read ++ (behindName.takeWhile isWhite ++ '=' :: (behindSign.takeWhile isWhite ++
          quote :: (inside ++ quote :: (behind.takeWhile isWhite ++ skipWhites behind)))) := by
        rw [← splitGap, ← quoted, ← splitAfter, ← signed, ← splitBefore]
        exact named
      have valueNonzero : Char.ofNat 0 ∉ inside := by
        intro zero
        apply nonzero
        rw [whole]
        simp [zero]
      refine ⟨⟨read, behindName.takeWhile isWhite, behindSign.takeWhile isWhite, quote, inside, behind.takeWhile isWhite,
        identifier, whiteBefore, whiteAfter, quotes, quotable, valueNonzero, gap⟩, rfl, rfl, whole.trans ?_⟩
      simp [PropSyntax.text, PropSyntax.assigned]

theorem parseProp_ended (parsed : parseProp s = .ok none) : isInitial (peek s) = false := by
  unfold parseProp at parsed
  cases found : parseIdentifier s with
  | none => exact parseIdentifier_none found
  | some pair =>
    obtain ⟨read, behindName⟩ := pair
    rw [found] at parsed
    obtain ⟨behindSign, sign, parsed⟩ := bind_ok parsed
    dsimp only at parsed
    split at parsed
    · cases parsed
    · obtain ⟨_, _, done⟩ := bind_ok parsed
      cases done

/-- A property is undefined behaviour if its value is not closed. -/
theorem parseProp_undefined (undefined : parseProp s = .error .undefined) : ∃ last : UnclosedProp, s = last.text := by
  unfold parseProp at undefined
  cases found : parseIdentifier s with
  | none => simp [found] at undefined
  | some pair =>
    obtain ⟨read, behindName⟩ := pair
    rw [found] at undefined
    obtain failed | ⟨behindSign, sign, undefined⟩ := bind_undefined undefined
    · exact absurd failed (consume_defined _ _)
    dsimp only at undefined
    split at undefined
    · cases undefined
    · obtain failed | ⟨_, _, done⟩ := bind_undefined undefined
      · obtain ⟨identifier, named, -⟩ := parseIdentifier_spec found
        obtain ⟨quote, value, quotes, unclosed, quoted⟩ := parseString_undefined failed
        have signed := consume_ok (by decide) sign
        obtain ⟨whiteBefore, splitBefore⟩ := white_append behindName
        obtain ⟨whiteAfter, splitAfter⟩ := white_append behindSign
        refine ⟨⟨read, behindName.takeWhile isWhite, behindSign.takeWhile isWhite, quote, value, identifier, whiteBefore,
          whiteAfter, quotes, unclosed⟩, ?_⟩
        rw [UnclosedProp.text, ← quoted, ← splitAfter, ← signed, ← splitBefore]
        exact named
      · cases done

theorem parseProp_unclosed (last : UnclosedProp) : parseProp last.text = .error .undefined := by
  have behindName : isInner (peek (last.beforeSign ++ '=' :: (last.afterSign ++ last.quote :: last.value))) = false :=
    peek_white last.whiteBefore (fun _ => isInner_of_isWhite) marks.1.1
  have sign := skipWhites_cons last.whiteBefore marks.2.1 (last.afterSign ++ last.quote :: last.value)
  have isQuote : isWhite last.quote = false ∧ (last.quote ≠ quotationMark && last.quote ≠ apostrophe) = false := by
    rcases last.quotes with same | same <;> rw [same] <;> decide
  have value := skipWhites_cons last.whiteAfter isQuote.1 last.value
  rw [UnclosedProp.text, parseProp, parseIdentifier_append last.identifier behindName]
  simp only [sign, consume_cons, bind, Except.bind, value, peek_cons, isQuote.2,
    parseString_unclosed last.quotes last.unclosed, Bool.false_eq_true, if_false]

theorem propsText_cons (prop : PropSyntax) (props : List PropSyntax) :
    propsText (prop :: props) = prop.text ++ propsText props := rfl

/-- What the properties of a tag are read from. The induction is on the rounds of the loop. -/
theorem parseProps_spec {fuel : Nat} {before properties : Properties} (nonzero : Char.ofNat 0 ∉ s)
    (parsed : parseProps fuel before s = .ok (properties, rest)) :
    ∃ props, s = propsText props ++ rest ∧ isInitial (peek rest) = false ∧
      properties = props.foldl (fun properties prop => properties.insert prop.name prop.value) before := by
  induction fuel generalizing before s with
  | zero => cases parsed
  | succ fuel inductionHypothesis =>
    rw [parseProps] at parsed
    obtain ⟨found, first, parsed⟩ := bind_ok parsed
    cases found with
    | none =>
      obtain ⟨rfl, rfl⟩ := Prod.mk.inj (Except.ok.inj parsed)
      exact ⟨[], rfl, parseProp_ended first, rfl⟩
    | some prop =>
      obtain ⟨name, value, behind⟩ := prop
      obtain ⟨prop, rfl, rfl, split⟩ := parseProp_spec nonzero first
      have further : Char.ofNat 0 ∉ skipWhites behind := by
        intro zero
        refine nonzero ?_
        rw [split]
        exact List.mem_append_right _ zero
      obtain ⟨props, same, initial, all⟩ := inductionHypothesis further parsed
      refine ⟨prop :: props, ?_, initial, all⟩
      rw [propsText_cons, List.append_assoc, ← same]
      exact split

/-- Properties are undefined behaviour if the value of one is not closed. -/
theorem parseProps_undefined {fuel : Nat} {before : Properties} (nonzero : Char.ofNat 0 ∉ s)
    (undefined : parseProps fuel before s = .error .undefined) :
    ∃ (props : List PropSyntax) (last : UnclosedProp), s = propsText props ++ last.text := by
  induction fuel generalizing before s with
  | zero => cases undefined
  | succ fuel inductionHypothesis =>
    rw [parseProps] at undefined
    obtain failed | ⟨found, first, undefined⟩ := bind_undefined undefined
    · obtain ⟨last, rfl⟩ := parseProp_undefined failed
      exact ⟨[], last, rfl⟩
    cases found with
    | none => cases undefined
    | some prop =>
      obtain ⟨name, value, behind⟩ := prop
      obtain ⟨prop, rfl, rfl, split⟩ := parseProp_spec nonzero first
      have further : Char.ofNat 0 ∉ skipWhites behind := by
        intro zero
        refine nonzero ?_
        rw [split]
        exact List.mem_append_right _ zero
      obtain ⟨props, last, same⟩ := inductionHypothesis further undefined
      refine ⟨prop :: props, last, ?_⟩
      rw [propsText_cons, List.append_assoc, ← same]
      exact split

/-- Properties with a value that is not closed are undefined behaviour. -/
theorem parseProps_unclosed (props : List PropSyntax) (last : UnclosedProp) (properties : Properties) {fuel : Nat}
    (enough : props.length < fuel) : parseProps fuel properties (propsText props ++ last.text) = .error .undefined := by
  have starts : isWhite (peek last.text) = false := by
    have identifier := last.identifier
    rw [UnclosedProp.text]
    cases same : last.name with
    | nil =>
      rw [same] at identifier
      exact absurd identifier id
    | cons c name =>
      rw [same] at identifier
      exact isWhite_of_isInitial identifier.1
  induction props generalizing properties fuel with
  | nil =>
    obtain ⟨further, rfl⟩ := Nat.exists_eq_add_one.mpr enough
    have failed : parseProp (propsText [] ++ last.text) = .error .undefined := parseProp_unclosed last
    rw [parseProps, failed]
    rfl
  | cons prop props inductionHypothesis =>
    obtain ⟨further, rfl⟩ := Nat.exists_eq_add_one.mpr (Nat.zero_lt_of_lt enough)
    have skipped : skipWhites (prop.after ++ (propsText props ++ last.text)) = propsText props ++ last.text :=
      skipWhites_append prop.gap (isWhite_peek_props starts)
    rw [propsText_cons, List.append_assoc, parseProps, parseProp_append]
    simp only [bind, Except.bind, skipped]
    exact inductionHypothesis _ (Nat.lt_of_succ_lt_succ enough)

/-! ## Tags -/

theorem gap_ne_nil {behindName : Text} (inner : isInner (peek behindName) = false)
    (initial : isInitial (peek (skipWhites behindName)) = true) : behindName.takeWhile isWhite ≠ [] := by
  intro none_
  have same : skipWhites behindName = behindName := by
    have split := (white_append behindName).2
    rw [none_, List.nil_append] at split
    exact split.symm
  rw [same] at initial
  have inside : isInner (peek behindName) = true := by
    simp only [isInitial, Bool.or_eq_true] at initial
    simp only [isInner, Bool.or_eq_true]
    exact initial.elim (fun letter => Or.inl (Or.inl (Or.inl letter))) fun line => Or.inl (Or.inr line)
  rw [inner] at inside
  cases inside

theorem peek_identifier {name : Text} (identifier : IsIdentifier name) (s : Text) : isInitial (peek (name ++ s)) = true := by
  cases name with
  | nil => exact absurd identifier id
  | cons c name => exact identifier.1

theorem peek_props {props : List PropSyntax} (some_ : props ≠ []) (s : Text) :
    isInitial (peek (propsText props ++ s)) = true := by
  cases props with
  | nil => exact absurd rfl some_
  | cons prop props =>
    rw [propsText_cons, PropSyntax.text, List.append_assoc, List.append_assoc]
    exact peek_identifier prop.identifier _

/-- What a tag can be read from, if that is no exception: a tag, or one with a value that is not closed. -/
theorem parseNode_cases (body : Node → Text → Except Error (Node × Text)) (nonzero : Char.ofNat 0 ∉ s) :
    (∃ problem, problem ≠ .undefined ∧ parseNode body s = .error problem) ∨
    (∃ (name : Text) (props : UnclosedProps), IsIdentifier name ∧ s = '<' :: (name ++ props.text)) ∨
    (∃ (tag : TagSyntax) (text : Text), s = tag.text ++ '/' :: '>' :: text) ∨
    ∃ (tag : TagSyntax) (text : Text), s = tag.text ++ '>' :: text := by
  unfold parseNode
  cases mark : consume '<' s with
  | error problem => exact Or.inl ⟨problem, fun same => consume_defined _ _ (same ▸ mark), rfl⟩
  | ok opened =>
    have start := consume_ok (by decide) mark
    subst start
    cases found : parseIdentifier opened with
    | none => exact Or.inl ⟨.nodeName, by simp, by simp [bind, Except.bind, found]⟩
    | some pair =>
      obtain ⟨name, behindName⟩ := pair
      simp only [bind, Except.bind, found]
      obtain ⟨identifier, rfl, inner⟩ := parseIdentifier_spec found
      obtain ⟨white, split⟩ := white_append behindName
      have further : Char.ofNat 0 ∉ skipWhites behindName := by
        intro zero
        apply nonzero
        rw [split]
        simp [zero]
      cases props : parseProps ((skipWhites behindName).length + 1) ∅ (skipWhites behindName) with
      | error problem =>
        by_cases undefined : problem = .undefined
        · obtain ⟨read, last, same⟩ := parseProps_undefined further (undefined ▸ props)
          have initial : isInitial (peek (skipWhites behindName)) = true := by
            rw [same]
            cases read with
            | nil => exact peek_identifier last.identifier _
            | cons prop read => exact peek_props (List.cons_ne_nil _ _) _
          refine Or.inr (Or.inl ⟨name, ⟨behindName.takeWhile isWhite, read, last, white, gap_ne_nil inner initial⟩, identifier,
            ?_⟩)
          rw [UnclosedProps.text, ← same, ← split]
        · exact Or.inl ⟨problem, undefined, rfl⟩
      | ok result =>
        obtain ⟨properties, rest⟩ := result
        obtain ⟨read, same, -, -⟩ := parseProps_spec further props
        have separated : read ≠ [] → behindName.takeWhile isWhite ≠ [] := by
          intro some_
          refine gap_ne_nil inner ?_
          rw [same]
          exact peek_props some_ rest
        have text : ∀ rest', rest = rest' → '<' :: (name ++ behindName) =
            TagSyntax.text ⟨name, behindName.takeWhile isWhite, read, identifier, white, separated⟩ ++ rest' := by
          rintro _ rfl
          rw [TagSyntax.text, List.cons_append, List.append_assoc, List.append_assoc, ← same, ← split]
        dsimp only
        split
        · cases closed : consumeWord ['/', '>'] rest with
          | error problem => exact Or.inl ⟨problem, fun same => consumeWord_defined _ _ (same ▸ closed), rfl⟩
          | ok behind => exact Or.inr (Or.inr (Or.inl ⟨_, behind, text _ (consumeWord_ok (by decide) closed)⟩))
        · cases closed : consumeWord ['>'] rest with
          | error problem => exact Or.inl ⟨problem, fun same => consumeWord_defined _ _ (same ▸ closed), rfl⟩
          | ok behind => exact Or.inr (Or.inr (Or.inr ⟨_, behind, text _ (consumeWord_ok (by decide) closed)⟩))

/-- A tag with a value that is not closed is undefined behaviour. -/
theorem parseNode_unclosed (body : Node → Text → Except Error (Node × Text)) {name : Text} (identifier : IsIdentifier name)
    (props : UnclosedProps) : parseNode body ('<' :: (name ++ props.text)) = .error .undefined := by
  have behindName : isInner (peek (props.text)) = false := by
    have white := props.white
    rw [UnclosedProps.text]
    cases gap : props.gap with
    | nil => exact absurd gap props.separated
    | cons c gap_ =>
      rw [gap] at white
      exact isInner_of_isWhite (white c List.mem_cons_self)
  have starts : isWhite (peek (propsText props.props ++ props.last.text)) = false :=
    isWhite_peek_props (isWhite_of_isInitial (peek_identifier props.last.identifier _))
  have skipped : skipWhites props.text = propsText props.props ++ props.last.text :=
    skipWhites_append props.white starts
  have enough : props.props.length < (propsText props.props ++ props.last.text).length + 1 := by
    have texts := length_le_propsText props.props
    rw [List.length_append]
    omega
  rw [parseNode]
  simp only [consume_cons, bind, Except.bind, parseIdentifier_append identifier behindName, skipped,
    parseProps_unclosed props.props props.last ∅ enough]

/-! ## Between the tags -/

/-- What stands next in a node, if that is no exception. -/
inductive Next (node : Node) : Text → Prop where
  | ended {w : Text} (white : White w) : Next node w
  | comment {w text : Text} (white : White w) (remark : CommentSyntax) : Next node (w ++ (remark.text ++ text))
  | ends {w text : Text} (white : White w) : Next node (w ++ (endTag node.name ++ text))
  | unclosed {w name : Text} (white : White w) (identifier : IsIdentifier name) (props : UnclosedProps) :
      Next node (w ++ '<' :: (name ++ props.text))
  | empty {w text : Text} (white : White w) (tag : TagSyntax) : Next node (w ++ (tag.text ++ '/' :: '>' :: text))
  | node {w text : Text} (white : White w) (tag : TagSyntax) : Next node (w ++ (tag.text ++ '>' :: text))
  | content {w text : Text} (white : White w) (none_ : node.content = []) {run : Text} (nonempty : run ≠ [])
      (starts : isWhite (run.head nonempty) = false) (characters : ∀ c ∈ run, isContent c = true)
      (ends : isContent (peek text) = false) : Next node (w ++ (run ++ text))

/-- The end of a comment that is found is the first one. -/
theorem findCommentEnd_spec (found : findCommentEnd s = '-' :: '-' :: '>' :: rest) :
    ∃ body, s = body ++ '-' :: '-' :: '>' :: rest ∧ ¬['-', '-', '>'] <:+: body ++ ['-', '-'] := by
  induction s with
  | nil => cases found
  | cons c s inductionHypothesis =>
    rw [findCommentEnd] at found
    split at found
    · exact ⟨[], found, by decide⟩
    · rename_i goesOn
      obtain ⟨body, same, unclosed⟩ := inductionHypothesis found
      refine ⟨c :: body, by rw [same, List.cons_append], ?_⟩
      rw [List.cons_append, List.infix_cons_iff]
      rintro (first | later)
      · apply goesOn
        rw [same]
        rcases body with _ | ⟨d, _ | ⟨e, body⟩⟩
        · simp at first
        · simp at first
        · simp only [List.cons_append, List.cons_prefix_cons] at first
          obtain ⟨rfl, rfl, rfl, -⟩ := first
          simp [peekNext]
      · exact unclosed later

/-- What a comment is read from. -/
theorem skipComment_spec (nonzero : Char.ofNat 0 ∉ s) (skipped : skipComment s = .ok (some rest)) :
    ∃ remark : CommentSyntax, s = remark.text ++ rest := by
  unfold skipComment at skipped
  split at skipped
  · cases same : consumeComment s with
    | error => simp [same, Except.map] at skipped
    | ok between =>
      rw [same] at skipped
      obtain rfl := Option.some.inj (Except.ok.inj skipped)
      unfold consumeComment at same
      obtain ⟨first, open_, same⟩ := bind_ok same
      obtain ⟨second, mark, same⟩ := bind_ok same
      obtain ⟨third, dash, same⟩ := bind_ok same
      obtain ⟨fourth, dash', close⟩ := bind_ok same
      have ends := consume_ok (by decide) dash
      rw [consume_ok (by decide) dash', consume_ok (by decide) close] at ends
      obtain ⟨body, inside, unclosed⟩ := findCommentEnd_spec ends
      have whole : s = '<' :: '!' :: (body ++ '-' :: '-' :: '>' :: between) := by
        rw [consume_ok (by decide) open_, consume_ok (by decide) mark, inside]
      have bodyNonzero : Char.ofNat 0 ∉ body := by
        intro zero
        apply nonzero
        rw [whole]
        simp [zero]
      exact ⟨⟨body, unclosed, bodyNonzero⟩, whole.trans (by simp [CommentSyntax.text])⟩
  · cases skipped

theorem skipComment_defined (s : Text) : skipComment s ≠ .error .undefined := by
  intro undefined
  unfold skipComment at undefined
  split at undefined
  · cases same : consumeComment s with
    | ok => simp [same, Except.map] at undefined
    | error problem =>
      rw [same] at undefined
      obtain rfl := Except.error.inj undefined
      unfold consumeComment at same
      obtain failed | ⟨_, -, same⟩ := bind_undefined same
      · exact consume_defined _ _ failed
      obtain failed | ⟨_, -, same⟩ := bind_undefined same
      · exact consume_defined _ _ failed
      obtain failed | ⟨_, -, same⟩ := bind_undefined same
      · exact consume_defined _ _ failed
      obtain failed | ⟨_, -, same⟩ := bind_undefined same
      · exact consume_defined _ _ failed
      exact consume_defined _ _ same
  · cases undefined

theorem getD_append (s : Text) :
    s = ((parseIdentifier s).getD ([], s)).1 ++ ((parseIdentifier s).getD ([], s)).2 := by
  cases found : parseIdentifier s with
  | none => rfl
  | some pair => exact (parseIdentifier_ok found).1

theorem eq_nil_of_peek (nonzero : Char.ofNat 0 ∉ s) (ended : peek s = Char.ofNat 0) : s = [] := by
  cases s with
  | nil => rfl
  | cons c s =>
    rw [peek_cons] at ended
    exact absurd (ended ▸ List.mem_cons_self) nonzero

/-- What is neither a tag nor the end of the text is a content. -/
theorem next_content {node : Node} {w : Text} (white : White w) (none_ : node.content = [])
    (first : isWhite (peek s) = false) (noTag : peek s ≠ '<') (noEnd : peek s ≠ Char.ofNat 0) : Next node (w ++ s) := by
  cases s with
  | nil => exact absurd rfl noEnd
  | cons c s =>
    have belongs : isContent c = true := by
      rw [peek_cons] at noTag noEnd
      simp [isContent, noTag, noEnd]
    have run : (c :: s).takeWhile isContent = c :: s.takeWhile isContent := List.takeWhile_cons_of_pos belongs
    have nonempty : (c :: s).takeWhile isContent ≠ [] := by
      rw [run]
      exact List.cons_ne_nil _ _
    have content := @Next.content node w ((c :: s).dropWhile isContent) white none_ ((c :: s).takeWhile isContent) nonempty
      (by simpa only [run, List.head_cons, peek_cons] using first) (fun _ member => List.mem_takeWhile_imp member)
      (peek_dropWhile isContent (by decide) _)
    rwa [List.takeWhile_append_dropWhile] at content

/-- Every item of a node is an exception, or one of those that can stand next. -/
theorem parseBody_cases (fuel : Nat) (node : Node) (nonzero : Char.ofNat 0 ∉ s) :
    (∃ problem, problem ≠ .undefined ∧ parseBody (fuel + 1) node s = .error problem) ∨ Next node s := by
  obtain ⟨white, split⟩ := white_append s
  have first := peek_dropWhile isWhite (by decide) s
  have further : Char.ofNat 0 ∉ skipWhites s := by
    intro zero
    apply nonzero
    rw [split]
    exact List.mem_append_right _ zero
  change isWhite (peek (skipWhites s)) = false at first
  generalize s.takeWhile isWhite = w at white split
  generalize left : skipWhites s = text at split further first
  rw [parseBody]
  simp only [left, bind, Except.bind]
  cases comment : skipComment text with
  | error problem => exact Or.inl ⟨problem, fun same => skipComment_defined _ (same ▸ comment), rfl⟩
  | ok found =>
    cases found with
    | some behind =>
      obtain ⟨remark, same⟩ := skipComment_spec further comment
      rw [split, same]
      exact Or.inr (.comment white remark)
    | none =>
      dsimp only
      split_ifs with ends starts ended some_ blank
      · cases opened : consumeWord ['<', '/'] text with
        | error problem => exact Or.inl ⟨problem, fun same => consumeWord_defined _ _ (same ▸ opened), rfl⟩
        | ok behind =>
          have named := getD_append behind
          dsimp only
          generalize (parseIdentifier behind).getD ([], behind) = found at named
          obtain ⟨name, rest⟩ := found
          split_ifs with different
          · exact Or.inl ⟨.invalidNode node.name name, by simp, rfl⟩
          · cases closed : consumeWord ['>'] rest with
            | error problem => exact Or.inl ⟨problem, fun same => consumeWord_defined _ _ (same ▸ closed), rfl⟩
            | ok further =>
              have same : text = endTag node.name ++ further := by
                rw [consumeWord_ok (by decide) opened, named, consumeWord_ok (by decide) closed, ← not_not.mp different]
                simp [endTag]
              rw [split, same]
              exact Or.inr (.ends white)
      · rw [split]
        rcases parseNode_cases (parseBody fuel) further with ⟨problem, defined, failed⟩ | ⟨name, props, identifier, rfl⟩ |
          ⟨tag, behind, rfl⟩ | ⟨tag, behind, rfl⟩
        · exact Or.inl ⟨problem, defined, by rw [failed]⟩
        · exact Or.inr (.unclosed white identifier props)
        · exact Or.inr (.empty white tag)
        · exact Or.inr (.node white tag)
      · rw [split, eq_nil_of_peek further ended, List.append_nil]
        exact Or.inr (.ended white)
      · exact Or.inl ⟨.twoContents, by simp, rfl⟩
      all_goals
        rw [split]
        exact Or.inr (next_content white (not_not.mp some_) first starts ended)

end Ospray.Xml
