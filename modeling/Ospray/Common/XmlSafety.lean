import Ospray.Common.XmlBroken

/-!
# Where the XML parser stays in its text

What reading a node or a document makes of its text: the text breaks off where it must not, or it is read up to its end,
or up to the end of the node. In the other direction, the parser leaves every text that breaks off so.
-/

namespace Ospray.Xml

/-! ## What is read of a node -/

/-- A result of reading a node: undefined only for a broken text, and behind the node or at the end of the text. -/
structure Reads (name : Text) (contents : Bool) (s : Text) (result : Except Error (Node × Text)) : Prop where
  broken : result = .error .undefined → Broken contents s
  inside : ∀ node rest, result = .ok (node, rest) → rest = [] ∨ ∃ text, s = text ++ rest ∧ Inside name contents text

namespace Reads

variable {name s w : Text} {contents : Bool} {result : Except Error (Node × Text)}

theorem exception {problem : Error} (defined : problem ≠ .undefined) : Reads name contents s (.error problem) where
  broken same := absurd (Except.error.inj same) defined
  inside _ _ same := nomatch same

theorem ended (node : Node) : Reads name contents s (.ok (node, [])) where
  broken same := nomatch same
  inside _ _ same := Or.inl (Prod.mk.inj (Except.ok.inj same)).2.symm

theorem before {contents' : Bool} {front : Text} (reads : Reads name contents' s result)
    (broken : Broken contents' s → Broken contents (front ++ s))
    (inside : ∀ text rest, s = text ++ rest → Inside name contents' text → Inside name contents (front ++ text)) :
    Reads name contents (front ++ s) result where
  broken same := broken (reads.broken same)
  inside node rest same := by
    rcases reads.inside node rest same with none_ | ⟨text, split, within⟩
    · exact Or.inl none_
    · exact Or.inr ⟨front ++ text, by rw [split, List.append_assoc], inside text rest split within⟩

theorem comment (white : White w) (remark : CommentSyntax) (reads : Reads name contents s result) :
    Reads name contents (w ++ (remark.text ++ s)) result := by
  rw [← List.append_assoc]
  apply reads.before
  · intro broken
    rw [List.append_assoc]
    exact .comment white remark broken
  · intro text rest _ inside
    rw [List.append_assoc]
    exact .comment white remark inside

theorem empty (white : White w) (tag : TagSyntax) (reads : Reads name contents s result) :
    Reads name contents (w ++ (tag.text ++ '/' :: '>' :: s)) result := by
  have shape : ∀ text : Text, w ++ (tag.text ++ '/' :: '>' :: text) = (w ++ (tag.text ++ ['/', '>'])) ++ text := by simp
  rw [shape]
  apply reads.before
  · intro broken
    rw [← shape]
    exact .empty white tag broken
  · intro text rest _ inside
    rw [← shape]
    exact .empty white tag inside

theorem node {child : Text} (white : White w) (tag : TagSyntax) (within : Inside tag.name true child)
    (reads : Reads name contents s result) : Reads name contents (w ++ (tag.text ++ '>' :: (child ++ s))) result := by
  have shape : ∀ text : Text, w ++ (tag.text ++ '>' :: (child ++ text)) = (w ++ (tag.text ++ '>' :: child)) ++ text := by
    simp
  rw [shape]
  apply reads.before
  · intro broken
    rw [← shape]
    exact .node white tag within broken
  · intro text rest _ inside
    rw [← shape]
    exact .node white tag within inside

end Reads

theorem Inside.ne_nil {name text : Text} {contents : Bool} (inside : Inside name contents text) : text ≠ [] := by
  cases inside with
  | ends => simp [endTag]
  | comment white remark => simp [CommentSyntax.text]
  | empty => simp
  | node => simp
  | content => simp
  | blank => simp

theorem Inside.starts {name s text rest : Text} {contents : Bool} (inside : Inside name contents text)
    (split : '<' :: s = text ++ rest) : ∃ behind, text = '<' :: behind := by
  cases text with
  | nil => exact absurd rfl inside.ne_nil
  | cons c behind =>
    obtain ⟨rfl, -⟩ := List.cons.inj split
    exact ⟨behind, rfl⟩

theorem Reads.content {name s w : Text} {result : Except Error (Node × Text)} (white : White w) (run : ContentSyntax)
    (reads : Reads name false ('<' :: s) result) :
    Reads name true (w ++ (run.content ++ (run.spaces ++ '<' :: s))) result := by
  have shape : ∀ text : Text, w ++ (run.content ++ (run.spaces ++ text)) = (w ++ (run.content ++ run.spaces)) ++ text := by
    simp
  rw [shape]
  apply reads.before
  · intro broken
    rw [← shape]
    exact .content white run broken
  · intro text rest split inside
    obtain ⟨behind, rfl⟩ := inside.starts split
    rw [← shape]
    exact .content white run inside

theorem Reads.blank {name s : Text} {result : Except Error (Node × Text)} (run : Blank)
    (reads : Reads name true ('<' :: s) result) : Reads name true (run.spaces ++ '<' :: s) result := by
  apply reads.before
  · exact .blank run
  · intro text rest split inside
    obtain ⟨behind, rfl⟩ := inside.starts split
    exact .blank run inside

/-! ## Reading nodes -/

theorem parseBody_ended (fuel : Nat) (node : Node) {w : Text} (white : White w) :
    parseBody (fuel + 1) node w = .ok (node, []) := by
  have skipped : skipWhites w = [] := List.dropWhile_eq_nil_iff.mpr white
  rw [parseBody]
  simp only [skipped]
  rfl

theorem reads_nil {name s : Text} {contents : Bool} (fuel : Nat) (node : Node) :
    Reads name contents s (parseBody fuel node []) := by
  cases fuel with
  | zero => exact .exception (by simp)
  | succ fuel =>
    rw [parseBody_ended fuel node (w := []) (by simp [White])]
    exact .ended node

theorem content_stops {text : Text} (nonzero : Char.ofNat 0 ∉ text) (ends : isContent (peek text) = false) :
    text = [] ∨ ∃ behind, text = '<' :: behind := by
  cases text with
  | nil => exact Or.inl rfl
  | cons c behind =>
    have different : c ≠ Char.ofNat 0 := fun zero => nonzero (zero ▸ List.mem_cons_self)
    have mark : c = '<' := by
      by_contra other
      simp [isContent, different, other] at ends
    exact Or.inr ⟨behind, by rw [mark]⟩

theorem blank_of_run {run : Text} (nonempty : run ≠ []) (starts : isWhite (run.head nonempty) = false)
    (blank : run.rdropWhile isspace = []) : ∃ spaces : Blank, spaces.spaces = run :=
  ⟨⟨run, nonempty, starts, List.rdropWhile_eq_nil_iff.mp blank⟩, rfl⟩

theorem content_of_run {run : Text} (nonempty : run ≠ []) (starts : isWhite (run.head nonempty) = false)
    (characters : ∀ c ∈ run, isContent c = true) (kept : run.rdropWhile isspace ≠ []) :
    ∃ content : ContentSyntax, content.content = run.rdropWhile isspace ∧ content.content ++ content.spaces = run := by
  have parts : run.rdropWhile isspace ++ run.rtakeWhile isspace = run := List.rdropWhile_append_rtakeWhile
  have first : (run.rdropWhile isspace).head kept = run.head nonempty := by
    rw [← @List.head_append_of_ne_nil _ (run.rtakeWhile isspace) _ (by rwa [parts]) kept]
    simp only [parts]
  have ends : isspace ((run.rdropWhile isspace).getLast kept) = false :=
    eq_false_of_ne_true (List.rdropWhile_last_not isspace run kept)
  exact ⟨⟨run.rdropWhile isspace, run.rtakeWhile isspace,
    fun c member => characters c (parts ▸ List.mem_append_left _ member), kept, by rw [first]; exact starts, ends,
    fun _ => List.mem_rtakeWhile_imp⟩, rfl, parts⟩

/-- What is read of a node. The induction is on the rounds of the loop, also those for its children. -/
theorem parseBody_reads (fuel : Nat) (node : Node) {s : Text} (identifier : IsIdentifier node.name)
    (nonzero : Char.ofNat 0 ∉ s) : Reads node.name (decide (node.content = [])) s (parseBody fuel node s) := by
  induction fuel generalizing node s with
  | zero => exact .exception (by simp)
  | succ fuel inductionHypothesis =>
    rcases parseBody_cases fuel node nonzero with ⟨problem, defined, failed⟩ | next
    · rw [failed]
      exact .exception defined
    cases next with
    | ended white =>
      rw [parseBody_ended fuel node white]
      exact .ended node
    | @comment w text white remark =>
      rw [parseBody_comment white]
      exact (inductionHypothesis node identifier (by simp_all)).comment white remark
    | @ends w text white =>
      rw [parseBody_end white identifier]
      constructor
      · exact fun same => nomatch same
      · intro read rest same
        obtain ⟨-, rfl⟩ := Prod.mk.inj (Except.ok.inj same)
        exact Or.inr ⟨w ++ endTag node.name, (List.append_assoc ..).symm, .ends white⟩
    | @unclosed w name white identifier props =>
      have starts : isInitial (peek (name ++ props.text)) = true := peek_identifier identifier _
      rw [parseBody_tag white starts, parseNode_unclosed _ identifier props]
      constructor
      · exact fun _ => .tag white identifier props
      · exact fun _ _ same => nomatch same
    | @empty w text white tag =>
      rw [parseBody_child white, parseNode_empty]
      exact (inductionHypothesis { node with child := node.child ++ [tag.node] } identifier (by simp_all)).empty white tag
    | @node w text white tag =>
      rw [parseBody_child white, parseNode_open]
      have further : Char.ofNat 0 ∉ text := by
        intro zero
        apply nonzero
        simp [zero]
      have within := inductionHypothesis tag.node tag.identifier further
      cases read : parseBody fuel tag.node text with
      | error problem =>
        rw [read] at within
        constructor
        · intro same
          exact .inside white tag (within.broken same)
        · exact fun _ _ same => nomatch same
      | ok result =>
        obtain ⟨child, rest⟩ := result
        rcases within.inside child rest read with rfl | ⟨inner, rfl, inside⟩
        · exact reads_nil fuel _
        · have behind : Char.ofNat 0 ∉ rest := fun zero => further (List.mem_append_right _ zero)
          exact (inductionHypothesis { node with child := node.child ++ [child] } identifier behind).node white tag inside
    | @content w text white none_ run nonempty starts characters ends =>
      have further : Char.ofNat 0 ∉ text := by
        intro zero
        apply nonzero
        simp [zero]
      have stops := content_stops further ends
      rw [parseBody_run white none_ nonempty starts characters ends]
      by_cases blank : run.rdropWhile isspace = []
      · obtain ⟨spaces, rfl⟩ := blank_of_run nonempty starts blank
        by_cases white_ : w = []
        · subst white_
          rw [if_neg fun both => both.2 rfl]
          rcases stops with rfl | ⟨behind, rfl⟩
          · exact reads_nil fuel _
          · have reads := inductionHypothesis { node with content := spaces.spaces.rdropWhile isspace } identifier further
            rw [blank] at reads ⊢
            rw [none_]
            exact reads.blank spaces
        · rw [if_pos ⟨blank, white_⟩]
          constructor
          · intro _
            rw [none_]
            refine .trimmed white white_ spaces ?_
            rcases stops with rfl | ⟨behind, rfl⟩
            · exact Or.inl rfl
            · exact Or.inr rfl
          · exact fun _ _ same => nomatch same
      · rw [if_neg fun both => blank both.1]
        rcases stops with rfl | ⟨behind, rfl⟩
        · exact reads_nil fuel _
        · obtain ⟨content, kept, whole⟩ := content_of_run nonempty starts characters blank
          have reads := inductionHypothesis { node with content := run.rdropWhile isspace } identifier further
          rw [decide_eq_false blank] at reads
          have shape : w ++ (run ++ '<' :: behind) = w ++ (content.content ++ (content.spaces ++ '<' :: behind)) := by
            rw [← List.append_assoc content.content, whole]
          rw [shape, none_]
          exact reads.content white content

/-! ## Texts that break off -/

theorem parseBody_blank {w s : Text} {node : Node} {fuel : Nat} (white : White w) (run : Blank) (none_ : node.content = [])
    (ends : isContent (peek s) = false) :
    parseBody (fuel + 1) node (w ++ (run.spaces ++ s)) =
      if w ≠ [] then .error .undefined else parseBody fuel node s := by
  have characters : ∀ c ∈ run.spaces, isContent c = true := fun c member => isContent_of_isspace (run.blank c member)
  have blank : run.spaces.rdropWhile isspace = [] := List.rdropWhile_eq_nil_iff.mpr run.blank
  have same : { node with content := [] } = node := by
    cases node
    rw [← none_]
  rw [parseBody_run white none_ run.nonempty run.starts characters ends, blank, same]
  simp only [true_and]

/-- What is inside a node is read, up to its end tag. -/
theorem parseBody_inside {name text : Text} {contents : Bool} (inside : Inside name contents text)
    (identifier : IsIdentifier name) {fuel : Nat} (enough : text.length < fuel) (node : Node) (named : node.name = name)
    (none_ : contents = decide (node.content = [])) (rest : Text) :
    ∃ read, parseBody fuel node (text ++ rest) = .ok (read, rest) := by
  induction inside generalizing fuel node rest with
  | ends white =>
    obtain ⟨fuel, rfl⟩ := Nat.exists_eq_add_one.mpr (Nat.zero_lt_of_lt enough)
    subst named
    rw [List.append_assoc, parseBody_end white identifier]
    exact ⟨node, rfl⟩
  | comment white remark _ inductionHypothesis =>
    obtain ⟨fuel, rfl⟩ := Nat.exists_eq_add_one.mpr (Nat.zero_lt_of_lt enough)
    rw [List.append_assoc, List.append_assoc, parseBody_comment white]
    refine inductionHypothesis identifier ?_ node named none_ rest
    simp only [List.length_append, CommentSyntax.text, List.length_cons] at enough
    omega
  | empty white tag _ inductionHypothesis =>
    obtain ⟨fuel, rfl⟩ := Nat.exists_eq_add_one.mpr (Nat.zero_lt_of_lt enough)
    rw [List.append_assoc, List.append_assoc, parseBody_child white, List.cons_append, List.cons_append, parseNode_empty]
    refine inductionHypothesis identifier ?_ { node with child := node.child ++ [tag.node] } named none_ rest
    simp only [List.length_append, List.length_cons] at enough
    omega
  | @node name contents w child text white tag _ _ insideHypothesis inductionHypothesis =>
    obtain ⟨fuel, rfl⟩ := Nat.exists_eq_add_one.mpr (Nat.zero_lt_of_lt enough)
    have shorter : child.length < fuel ∧ text.length < fuel := by
      simp only [List.length_append, List.length_cons] at enough
      omega
    obtain ⟨read, same⟩ := insideHypothesis tag.identifier shorter.1 tag.node rfl rfl (text ++ rest)
    rw [List.append_assoc, List.append_assoc, parseBody_child white, List.cons_append, parseNode_open, List.append_assoc,
      same]
    exact inductionHypothesis identifier shorter.2 { node with child := node.child ++ [read] } named none_ rest
  | @content name w text white run _ inductionHypothesis =>
    obtain ⟨fuel, rfl⟩ := Nat.exists_eq_add_one.mpr (Nat.zero_lt_of_lt enough)
    have nonempty := List.length_pos_iff.mpr run.nonempty
    have shorter : ('<' :: text).length < fuel := by
      simp only [List.length_append] at enough
      omega
    obtain ⟨read, same⟩ := inductionHypothesis identifier shorter { node with content := run.content } named
      (decide_eq_false run.nonempty).symm rest
    rw [List.append_assoc, List.append_assoc, List.append_assoc, List.cons_append,
      parseBody_content white run (of_decide_eq_true none_.symm) run.trimmed]
    exact ⟨read, same⟩
  | @blank name text run _ inductionHypothesis =>
    obtain ⟨fuel, rfl⟩ := Nat.exists_eq_add_one.mpr (Nat.zero_lt_of_lt enough)
    have nonempty := List.length_pos_iff.mpr run.nonempty
    have shorter : ('<' :: text).length < fuel := by
      simp only [List.length_append] at enough
      omega
    have passed := @parseBody_blank [] (('<' :: text) ++ rest) node fuel (by simp [White]) run
      (of_decide_eq_true none_.symm) rfl
    rw [if_neg (not_not.mpr rfl), List.nil_append] at passed
    rw [List.append_assoc, passed]
    exact inductionHypothesis identifier shorter node named none_ rest

/-- A broken text is left. -/
theorem parseBody_leaves {text : Text} {contents : Bool} (broken : Broken contents text) {fuel : Nat}
    (enough : text.length < fuel) (node : Node) (none_ : contents = decide (node.content = [])) :
    parseBody fuel node text = .error .undefined := by
  induction broken generalizing fuel node with
  | @tag contents w name white identifier props =>
    obtain ⟨fuel, rfl⟩ := Nat.exists_eq_add_one.mpr (Nat.zero_lt_of_lt enough)
    have starts : isInitial (peek (name ++ props.text)) = true := peek_identifier identifier _
    rw [parseBody_tag white starts, parseNode_unclosed _ identifier props]
    rfl
  | @trimmed w text white nonempty run ends =>
    obtain ⟨fuel, rfl⟩ := Nat.exists_eq_add_one.mpr (Nat.zero_lt_of_lt enough)
    have stops : isContent (peek text) = false := by
      rcases ends with rfl | mark
      · rfl
      · rw [mark]
        rfl
    rw [parseBody_blank white run (of_decide_eq_true none_.symm) stops, if_pos nonempty]
  | @inside contents w text white tag _ inductionHypothesis =>
    obtain ⟨fuel, rfl⟩ := Nat.exists_eq_add_one.mpr (Nat.zero_lt_of_lt enough)
    have shorter : text.length < fuel := by
      simp only [List.length_append, List.length_cons] at enough
      omega
    rw [parseBody_child white, parseNode_open, inductionHypothesis shorter tag.node rfl]
    rfl
  | @comment contents w text white remark _ inductionHypothesis =>
    obtain ⟨fuel, rfl⟩ := Nat.exists_eq_add_one.mpr (Nat.zero_lt_of_lt enough)
    have shorter : text.length < fuel := by
      simp only [List.length_append, CommentSyntax.text, List.length_cons] at enough
      omega
    rw [parseBody_comment white]
    exact inductionHypothesis shorter node none_
  | @empty contents w text white tag _ inductionHypothesis =>
    obtain ⟨fuel, rfl⟩ := Nat.exists_eq_add_one.mpr (Nat.zero_lt_of_lt enough)
    have shorter : text.length < fuel := by
      simp only [List.length_append, List.length_cons] at enough
      omega
    rw [parseBody_child white, parseNode_empty]
    exact inductionHypothesis shorter { node with child := node.child ++ [tag.node] } none_
  | @node contents w child text white tag inside _ inductionHypothesis =>
    obtain ⟨fuel, rfl⟩ := Nat.exists_eq_add_one.mpr (Nat.zero_lt_of_lt enough)
    have shorter : child.length < fuel ∧ text.length < fuel := by
      simp only [List.length_append, List.length_cons] at enough
      omega
    obtain ⟨read, same⟩ := parseBody_inside inside tag.identifier shorter.1 tag.node rfl rfl text
    rw [parseBody_child white, parseNode_open, same]
    exact inductionHypothesis shorter.2 { node with child := node.child ++ [read] } none_
  | @content w text white run _ inductionHypothesis =>
    obtain ⟨fuel, rfl⟩ := Nat.exists_eq_add_one.mpr (Nat.zero_lt_of_lt enough)
    have nonempty := List.length_pos_iff.mpr run.nonempty
    have shorter : ('<' :: text).length < fuel := by
      simp only [List.length_append] at enough
      omega
    rw [parseBody_content white run (of_decide_eq_true none_.symm) run.trimmed]
    exact inductionHypothesis shorter { node with content := run.content } (decide_eq_false run.nonempty).symm
  | @blank text run _ inductionHypothesis =>
    obtain ⟨fuel, rfl⟩ := Nat.exists_eq_add_one.mpr (Nat.zero_lt_of_lt enough)
    have nonempty := List.length_pos_iff.mpr run.nonempty
    have shorter : ('<' :: text).length < fuel := by
      simp only [List.length_append] at enough
      omega
    have passed := @parseBody_blank [] ('<' :: text) node fuel (by simp [White]) run (of_decide_eq_true none_.symm) rfl
    rw [if_neg (not_not.mpr rfl), List.nil_append] at passed
    rw [passed]
    exact inductionHypothesis shorter node none_

theorem skipWhites_tag_behind {w : Text} (white : White w) (tag : TagSyntax) (s : Text) :
    skipWhites (w ++ (tag.text ++ s)) = tag.text ++ s :=
  skipWhites_cons white marks.2.2.1 _

theorem nonzero_skipWhites {s : Text} (nonzero : Char.ofNat 0 ∉ s) : Char.ofNat 0 ∉ skipWhites s :=
  fun zero => nonzero ((skipWhites_suffix s).subset zero)

theorem parseNodes_nil (fuel : Nat) (child : List Node) : parseNodes fuel child [] ≠ .error .undefined := by
  cases fuel with
  | zero => rintro ⟨⟩
  | succ fuel =>
    rw [parseNodes, if_pos (show peek [] = Char.ofNat 0 from rfl)]
    rintro ⟨⟩

/-- Reading the nodes of a document is undefined only for a broken text. -/
theorem parseNodes_broken (fuel : Nat) (child : List Node) {s : Text} (nonzero : Char.ofNat 0 ∉ s)
    (undefined : parseNodes fuel child (skipWhites s) = .error .undefined) : Broken false s := by
  induction fuel generalizing child s with
  | zero => cases undefined
  | succ fuel inductionHypothesis =>
    have further := nonzero_skipWhites nonzero
    obtain ⟨white, split⟩ := white_append s
    rw [split]
    generalize s.takeWhile isWhite = w at white
    generalize skipWhites s = text at undefined further
    rw [parseNodes] at undefined
    split at undefined
    · cases undefined
    obtain failed | ⟨found, comment, undefined⟩ := bind_undefined undefined
    · exact absurd failed (skipComment_defined _)
    cases found with
    | some behind =>
      obtain ⟨remark, rfl⟩ := skipComment_spec further comment
      exact .comment white remark (inductionHypothesis child (fun zero => further (List.mem_append_right _ zero)) undefined)
    | none =>
      rcases parseNode_cases (parseBody fuel) further with ⟨problem, defined, failed⟩ | ⟨name, props, identifier, rfl⟩ |
        ⟨tag, behind, rfl⟩ | ⟨tag, behind, rfl⟩
      · obtain same | ⟨_, same, -⟩ := bind_undefined undefined
        · rw [failed] at same
          exact absurd (Except.error.inj same) defined
        · rw [failed] at same
          cases same
      · exact .tag white identifier props
      · rw [parseNode_empty] at undefined
        refine .empty white tag (inductionHypothesis (child ++ [tag.node]) (fun zero => further ?_) undefined)
        simp [zero]
      · have inner : Char.ofNat 0 ∉ behind := by
          intro zero
          apply further
          simp [zero]
        have reads := parseBody_reads fuel tag.node tag.identifier inner
        rw [parseNode_open] at undefined
        dsimp only at undefined
        obtain failed | ⟨⟨node, rest⟩, read, later⟩ := bind_undefined undefined
        · exact .inside white tag (reads.broken failed)
        · rcases reads.inside node rest read with rfl | ⟨text, rfl, inside⟩
          · exact absurd later (parseNodes_nil _ _)
          · exact .node white tag inside
              (inductionHypothesis (child ++ [node]) (fun zero => inner (List.mem_append_right _ zero)) later)

/-- The nodes of a broken text are left. -/
theorem parseNodes_leaves {text : Text} {contents : Bool} (broken : Broken contents text) (outside : contents = false)
    {fuel : Nat} (enough : (skipWhites text).length < fuel) (child : List Node) :
    parseNodes fuel child (skipWhites text) = .error .undefined := by
  induction broken generalizing fuel child with
  | @tag contents w name white identifier props =>
    obtain ⟨fuel, rfl⟩ := Nat.exists_eq_add_one.mpr (Nat.zero_lt_of_lt enough)
    have starts : isInitial (peek (name ++ props.text)) = true := peek_identifier identifier _
    rw [skipWhites_cons white marks.2.2.1, parseNodes_tag fuel child starts, parseNode_unclosed _ identifier props]
    rfl
  | @inside contents w text white tag rest _ =>
    obtain ⟨fuel, rfl⟩ := Nat.exists_eq_add_one.mpr (Nat.zero_lt_of_lt enough)
    rw [skipWhites_tag_behind white] at enough ⊢
    have shorter : text.length < fuel := by
      simp only [List.length_append, List.length_cons] at enough
      omega
    rw [parseNodes_node, parseNode_open, parseBody_leaves rest shorter tag.node rfl]
    rfl
  | @comment contents w text white remark _ inductionHypothesis =>
    obtain ⟨fuel, rfl⟩ := Nat.exists_eq_add_one.mpr (Nat.zero_lt_of_lt enough)
    have skipped : skipWhites (w ++ (remark.text ++ text)) = remark.text ++ text := skipWhites_cons white marks.2.2.1 _
    rw [skipped] at enough ⊢
    have shorter : (skipWhites text).length < fuel := by
      have less := length_skipWhites_le text
      simp only [List.length_append, CommentSyntax.text, List.length_cons] at enough
      omega
    rw [parseNodes_comment]
    exact inductionHypothesis outside shorter child
  | @empty contents w text white tag _ inductionHypothesis =>
    obtain ⟨fuel, rfl⟩ := Nat.exists_eq_add_one.mpr (Nat.zero_lt_of_lt enough)
    rw [skipWhites_tag_behind white] at enough ⊢
    have shorter : (skipWhites text).length < fuel := by
      have less := length_skipWhites_le text
      simp only [List.length_append, List.length_cons] at enough
      omega
    rw [parseNodes_node, parseNode_empty]
    exact inductionHypothesis outside shorter (child ++ [tag.node])
  | @node contents w inner text white tag inside _ inductionHypothesis =>
    obtain ⟨fuel, rfl⟩ := Nat.exists_eq_add_one.mpr (Nat.zero_lt_of_lt enough)
    rw [skipWhites_tag_behind white] at enough ⊢
    have shorter : inner.length < fuel ∧ (skipWhites text).length < fuel := by
      have less := length_skipWhites_le text
      simp only [List.length_append, List.length_cons] at enough
      omega
    obtain ⟨read, same⟩ := parseBody_inside inside tag.identifier shorter.1 tag.node rfl rfl text
    rw [parseNodes_node, parseNode_open, same]
    exact inductionHypothesis outside shorter.2 (child ++ [read])
  | trimmed => exact absurd outside Bool.noConfusion
  | content => exact absurd outside Bool.noConfusion
  | blank => exact absurd outside Bool.noConfusion

/-! ## Headers -/

theorem closing_ok {s rest : Text} (closed : (consumeWord ['?', '>'] s).map some = .ok (some rest)) :
    s = ['?', '>'] ++ rest := by
  cases word : consumeWord ['?', '>'] s with
  | error problem => simp [word, Except.map] at closed
  | ok behind =>
    rw [word] at closed
    obtain rfl := Option.some.inj (Except.ok.inj closed)
    exact consumeWord_ok (by decide) word

theorem closing_defined (s : Text) : (consumeWord ['?', '>'] s).map some ≠ .error .undefined := by
  cases word : consumeWord ['?', '>'] s with
  | error problem =>
    intro same
    obtain rfl := Except.error.inj same
    exact consumeWord_defined _ _ word
  | ok behind => exact fun same => nomatch same

theorem white_behind {s : Text} (starts : isWhite (peek s) = true) :
    ∃ gap, White gap ∧ gap ≠ [] ∧ s = gap ++ skipWhites s.tail := by
  cases s with
  | nil => exact absurd starts (by decide)
  | cons c s =>
    obtain ⟨white, split⟩ := white_append s
    refine ⟨c :: s.takeWhile isWhite, ?_, List.cons_ne_nil _ _, ?_⟩
    · intro d member
      rcases List.mem_cons.mp member with rfl | later
      · exact starts
      · exact white d later
    · rw [List.cons_append, List.tail_cons, ← split]

/-- What a header is read from. -/
theorem parseHeader_spec {s rest : Text} (nonzero : Char.ofNat 0 ∉ s) (parsed : parseHeader s = .ok (some rest)) :
    ∃ header : HeaderSyntax, s = header.text ++ rest := by
  unfold parseHeader at parsed
  obtain ⟨behind, word, parsed⟩ := bind_ok parsed
  have start := consumeWord_ok (by decide) word
  split at parsed
  · refine ⟨⟨[], [], by simp [White], fun some_ => absurd rfl some_⟩, ?_⟩
    rw [start, closing_ok parsed]
    simp [HeaderSyntax.text, propsText]
  · split at parsed
    · cases parsed
    · rename_i white
      obtain ⟨gap, white, separated, gapped⟩ := white_behind (by simpa using white)
      obtain ⟨⟨properties, last⟩, props, parsed⟩ := bind_ok parsed
      have further : Char.ofNat 0 ∉ skipWhites behind.tail := by
        intro zero
        apply nonzero
        rw [start, gapped]
        simp [zero]
      obtain ⟨read, same, -, -⟩ := parseProps_spec further props
      refine ⟨⟨gap, read, white, fun _ => separated⟩, ?_⟩
      rw [start, gapped, same, closing_ok parsed]
      simp [HeaderSyntax.text]

/-- A header is undefined behaviour if the value of a property is not closed. -/
theorem parseHeader_undefined {s : Text} (nonzero : Char.ofNat 0 ∉ s) (undefined : parseHeader s = .error .undefined) :
    ∃ props : UnclosedProps, s = ['<', '?', 'x', 'm', 'l'] ++ props.text := by
  unfold parseHeader at undefined
  obtain failed | ⟨behind, word, undefined⟩ := bind_undefined undefined
  · exact absurd failed (consumeWord_defined _ _)
  have start := consumeWord_ok (by decide) word
  split at undefined
  · exact absurd undefined (closing_defined _)
  · split at undefined
    · cases undefined
    · rename_i white
      obtain ⟨gap, white, separated, gapped⟩ := white_behind (by simpa using white)
      have further : Char.ofNat 0 ∉ skipWhites behind.tail := by
        intro zero
        apply nonzero
        rw [start, gapped]
        simp [zero]
      obtain failed | ⟨_, _, later⟩ := bind_undefined undefined
      · obtain ⟨read, last, same⟩ := parseProps_undefined further failed
        refine ⟨⟨gap, read, last, white, separated⟩, ?_⟩
        rw [start, gapped, same]
        rfl
      · exact absurd later (closing_defined _)

/-- A header with a value that is not closed is left. -/
theorem parseHeader_leaves (props : UnclosedProps) :
    parseHeader (['<', '?', 'x', 'm', 'l'] ++ props.text) = .error .undefined := by
  obtain ⟨gap, read, last, white, separated⟩ := props
  cases gap with
  | nil => exact absurd rfl separated
  | cons c gap =>
    have isSpace : isWhite c = true := white c List.mem_cons_self
    have noMark : c ≠ '?' := by
      rintro rfl
      exact absurd isSpace (by decide)
    have starts : isWhite (peek (propsText read ++ last.text)) = false :=
      isWhite_peek_props (isWhite_of_isInitial (peek_identifier last.identifier _))
    have skipped : skipWhites (gap ++ (propsText read ++ last.text)) = propsText read ++ last.text :=
      skipWhites_append (fun d member => white d (List.mem_cons_of_mem _ member)) starts
    have enough : read.length < (propsText read ++ last.text).length + 1 := by
      have texts := length_le_propsText read
      rw [List.length_append]
      omega
    rw [UnclosedProps.text, parseHeader, consumeWord_append]
    simp only [bind, Except.bind, List.cons_append, peek_cons, noMark, decide_false, Bool.false_and, Bool.false_eq_true,
      if_false, isSpace, Bool.not_true, List.tail_cons, skipped, parseProps_unclosed read last ∅ enough]

/-! ## The whole parser -/

/-- A broken text outside all nodes starts like no header. -/
theorem Broken.noHeader {s : Text} {contents : Bool} (broken : Broken contents s) (outside : contents = false) :
    (peek s = '<' && peekNext s = '?') = false := by
  have behindWhite : ∀ {w rest : Text}, White w → peek rest ≠ '?' →
      (peek (w ++ '<' :: rest) = '<' && peekNext (w ++ '<' :: rest) = '?') = false := by
    intro w rest white other
    cases w with
    | nil => simp [peekNext, other]
    | cons c w =>
      have noTag : c ≠ '<' := by
        rintro rfl
        exact absurd (white _ List.mem_cons_self) (by decide)
      simp [noTag]
  have named : ∀ {rest : Text}, isInitial (peek rest) = true → peek rest ≠ '?' := by
    intro rest initial mark
    rw [mark] at initial
    exact absurd initial (by decide)
  have tagged : ∀ {w : Text} (tag : TagSyntax) (rest : Text), White w →
      (peek (w ++ (tag.text ++ rest)) = '<' && peekNext (w ++ (tag.text ++ rest)) = '?') = false := by
    intro w tag rest white
    obtain ⟨behind, starts, initial⟩ := peekNext_tag tag rest
    rw [starts]
    exact behindWhite white (named initial)
  cases broken with
  | tag white identifier props => exact behindWhite white (named (peek_identifier identifier _))
  | inside white tag => exact tagged tag _ white
  | comment white remark =>
    have mark : '!' ≠ '?' := by decide
    exact behindWhite white mark
  | empty white tag => exact tagged tag _ white
  | node white tag => exact tagged tag _ white
  | trimmed => exact absurd outside Bool.noConfusion
  | content => exact absurd outside Bool.noConfusion
  | blank => exact absurd outside Bool.noConfusion

/-- The parser reads on behind the end of a text, or makes a string with its end before its start, exactly if the text
is broken. -/
theorem parseXML_undefined_iff {s : Text} (nonzero : Char.ofNat 0 ∉ s) :
    parseXML s = .error .undefined ↔ BrokenDocument s := by
  constructor
  · intro undefined
    unfold parseXML at undefined
    have behindHeader : ∀ {rest : Text}, Char.ofNat 0 ∉ rest → (do
        let read ← parseNodes ((skipWhites rest).length + 1) [] (skipWhites rest)
        if peek read.2 ≠ Char.ofNat 0 then .error .junk else .ok read : Except Error (List Node × Text)) =
          .error .undefined → Broken false rest := by
      intro rest nonzero undefined
      obtain failed | ⟨_, _, later⟩ := bind_undefined undefined
      · exact parseNodes_broken _ _ nonzero failed
      · split at later <;> cases later
    obtain failed | ⟨rest, header, later⟩ := bind_undefined undefined
    · unfold skipHeader at failed
      split at failed
      · obtain failed | ⟨found, _, later⟩ := bind_undefined failed
        · obtain ⟨props, rfl⟩ := parseHeader_undefined nonzero failed
          exact .header props
        · cases found <;> cases later
      · cases failed
    · unfold skipHeader at header
      split at header
      · obtain ⟨found, parsed, same⟩ := bind_ok header
        clear header
        cases found with
        | none => cases same
        | some behind =>
          obtain rfl := Except.ok.inj same
          obtain ⟨header, rfl⟩ := parseHeader_spec nonzero parsed
          exact .items (some header) (behindHeader (fun zero => nonzero (List.mem_append_right _ zero)) later)
      · obtain rfl := Except.ok.inj header
        exact .items none (behindHeader nonzero later)
  · rintro (⟨props⟩ | ⟨header, broken⟩)
    · rw [parseXML, skipHeader, if_pos (by rfl), parseHeader_leaves]
      rfl
    · rename_i text
      have skipped : skipHeader ((header.map HeaderSyntax.text).getD [] ++ text) = .ok text := by
        cases header with
        | none =>
          rw [Option.map_none, Option.getD_none, List.nil_append, skipHeader, broken.noHeader rfl]
          rfl
        | some header =>
          have starts : (peek (header.text ++ text) = '<' && peekNext (header.text ++ text) = '?') = true := by
            simp [HeaderSyntax.text, peekNext]
          rw [Option.map_some, Option.getD_some, skipHeader, starts, if_pos rfl, parseHeader_append]
          rfl
      rw [parseXML, skipped]
      simp only [bind, Except.bind, parseNodes_leaves broken rfl (Nat.lt_succ_self _) []]

namespace Pointers

open Library.Simulations

/-- The parser ends with a document or an exception: every byte it reads is one of the text or the zero behind it, every
string it makes ends behind its start, and every loop ends. -/
def Safe (bytes : Text) : Prop :=
  (∃ child, parseXML bytes = .ok child) ∨ ∃ error exception, parseXML bytes = .error (.thrown error exception)

/-- The parser is safe unless it reaches undefined behaviour. -/
theorem safe_iff_defined (bytes : Text) : Safe bytes ↔ Xml.parseXML bytes ≠ .error .undefined := by
  have deep := parseXML_deep bytes
  have simulates := parseXML_simulates bytes
  unfold Safe
  generalize parseXML bytes = x at simulates ⊢
  generalize Xml.parseXML bytes = y at simulates deep ⊢
  cases simulates with
  | ok related => simp
  | @error stop error related =>
    cases stop with
    | thrown thrown exception =>
      obtain rfl : thrown = error := related
      constructor
      · intro _ same
        rw [Except.error.inj same] at exception
        cases exception
      · exact fun _ => Or.inr ⟨thrown, exception, rfl⟩
    | outside index =>
      obtain rfl : error = .undefined := related
      simp
    | negative start stop =>
      obtain rfl : error = .undefined := related
      simp
    | rounds =>
      obtain rfl : error = .fuel := related
      exact absurd rfl deep

/-- The parser is safe on exactly the texts that do not break off at a value that is not closed, or at a content of
nothing but spaces behind white space. -/
theorem safe_iff (bytes : Text) (nonzero : Char.ofNat 0 ∉ bytes) : Safe bytes ↔ ¬BrokenDocument bytes := by
  rw [safe_iff_defined, Ne, parseXML_undefined_iff nonzero]

/-- A tag alone does not break off. -/
theorem safe_iff_tag : ¬BrokenDocument ['<', 'a', '/', '>'] :=
  (safe_iff ['<', 'a', '/', '>'] (by decide)).mp (Or.inl ⟨_, rfl⟩)

/-- Without its second quote a value is read beyond the end of the text. -/
theorem unclosed_outside : ¬∀ bytes : Text, Char.ofNat 0 ∉ bytes → Safe bytes := by
  intro safe
  have outside : parseXML ['<', 'a', ' ', 'b', '=', '"'] = .error (.outside 7) := rfl
  rcases safe ['<', 'a', ' ', 'b', '=', '"'] (by decide) with ⟨child, read⟩ | ⟨error, exception, thrown⟩
  · rw [outside] at read
    cases read
  · rw [outside] at thrown
    cases thrown

/-- The end of a content that is a vertical tab behind a space comes to stand before its start. -/
example : parseXML ['<', 'a', '>', ' ', Char.ofNat 11, '<', '/', 'a', '>'] = .error (.negative 4 3) := rfl

end Pointers

end Ospray.Xml
