import Ospray.Common.XmlPointers
import Ospray.Library.Simulations

/-!
# Pointers and the texts behind them

A pointer into a text stands for what is left of the text. With pointers the parser does what it
does with texts, where a read outside or a negative substring is undefined behaviour.
-/

namespace Ospray.Xml.Pointers

open Library.Simulations

/-! ## Pointers -/

/-- How a function with a pointer ends early, and one with a text. -/
def Stop.Matches : Stop → Error → Prop
  | .thrown error _, same => error = same
  | .outside _, same | .negative _ _, same => same = .undefined
  | .rounds, same => same = .fuel

/-- An exception in both. -/
def Stop.Throws (stop : Stop) (error : Error) : Prop := ∃ exception, stop = .thrown error exception

theorem Stop.Throws.matches {stop : Stop} {error : Error} (throws : stop.Throws error) : stop.Matches error := by
  obtain ⟨exception, rfl⟩ := throws
  rfl

/-- A pointer into the bytes, and what is left from there on. -/
structure Points (bytes : Text) (s : Nat) (rest : Text) : Prop where
  inside : s ≤ bytes.length
  rest_eq : rest = bytes.drop s

/-- The byte before a pointer. -/
def Behind (bytes : Text) (holds : Char → Prop) (s : Nat) : Prop := 0 < s ∧ holds (peek (bytes.drop (s - 1)))

/-- A pointer with a byte before it. -/
def PointsBehind (bytes : Text) (holds : Char → Prop) (s : Nat) (rest : Text) : Prop :=
  Points bytes s rest ∧ Behind bytes holds s

variable {bytes rest : Text} {s : Nat}

namespace Points

theorem start (bytes : Text) : Points bytes 0 bytes := ⟨Nat.zero_le _, rfl⟩

variable (points : Points bytes s rest)
include points

theorem length_eq : rest.length = bytes.length - s := by rw [points.rest_eq, List.length_drop]

theorem byte_eq : byte bytes s = .ok (peek rest) := by
  have inside := points.inside
  rw [byte, if_pos (by omega), Int.toNat_natCast, points.rest_eq]

theorem next {c : Char} {behind : Text} (here : rest = c :: behind) :
    Points bytes (s + 1) behind ∧ peek (bytes.drop s) = c := by
  have length := points.length_eq
  have inside := points.inside
  rw [here, List.length_cons] at length
  refine ⟨⟨by omega, ?_⟩, ?_⟩
  · rw [← List.tail_drop, ← points.rest_eq, here, List.tail_cons]
  · rw [← points.rest_eq, here, peek_cons]

theorem exists_cons (nonzero : peek rest ≠ Char.ofNat 0) : ∃ behind, rest = peek rest :: behind := by
  cases rest with
  | nil => exact absurd rfl nonzero
  | cons c behind => exact ⟨behind, rfl⟩

theorem starts_eq {w0 w1 : Char} (nonzero : w0 ≠ Char.ofNat 0) :
    starts bytes w0 w1 s = .ok (peek rest = w0 && peekNext rest = w1) := by
  rw [starts, points.byte_eq]
  simp only [bind, Except.bind]
  split
  · rename_i same
    obtain ⟨behind, split⟩ := points.exists_cons (same.trans_ne nonzero)
    obtain ⟨further, -⟩ := points.next split
    have second := further.byte_eq
    rw [Int.natCast_add, Int.natCast_one] at second
    rw [second, peekNext, split, List.tail_cons, ← split, same]
    simp [pure, Except.pure]
  · rename_i other
    simp [other, pure, Except.pure]

end Points

/-! ## Loops -/

/-- A loop over characters stops behind the last one that satisfies the predicate. -/
theorem advance_eq {holds : Char → Bool} (zero : holds (Char.ofNat 0) = false) {rounds : Nat}
    (points : Points bytes s rest) (enough : rest.length < rounds) :
    advance (fun s => do return !holds (← byte bytes s)) (fun s => pure (s + 1)) rounds s =
      .ok (s + (rest.takeWhile holds).length) := by
  induction rest generalizing s rounds with
  | nil =>
    obtain ⟨rounds, rfl⟩ := Nat.exists_eq_add_one.mpr enough
    rw [advance, points.byte_eq]
    simp [bind, Except.bind, pure, Except.pure, peek, zero]
  | cons c behind inductionHypothesis =>
    obtain ⟨rounds, rfl⟩ := Nat.exists_eq_add_one.mpr (Nat.zero_lt_of_lt enough)
    obtain ⟨further, -⟩ := points.next rfl
    have others := inductionHypothesis further (Nat.lt_of_succ_lt_succ enough)
    rw [advance, points.byte_eq]
    cases belongs : holds c with
    | false => simp [bind, Except.bind, pure, Except.pure, belongs]
    | true =>
      simp only [bind, Except.bind, pure, Except.pure, peek_cons, belongs, Bool.not_true, Bool.false_eq_true, if_false,
        List.takeWhile_cons_of_pos, List.length_cons] at others ⊢
      rw [others, Nat.add_assoc, Nat.add_comm 1]

theorem skipWhile_eq {holds : Char → Bool} (zero : holds (Char.ofNat 0) = false) (points : Points bytes s rest) :
    skipWhile bytes holds s = .ok (s + (rest.takeWhile holds).length) ∧
      Points bytes (s + (rest.takeWhile holds).length) (rest.dropWhile holds) := by
  have length := points.length_eq
  have shorter : (rest.takeWhile holds).length ≤ rest.length := (List.takeWhile_sublist holds).length_le
  refine ⟨advance_eq zero points (by omega), ⟨?_, ?_⟩⟩
  · have inside := points.inside
    omega
  · have split : rest.drop (rest.takeWhile holds).length = rest.dropWhile holds := by
      have whole := @List.drop_left _ (rest.takeWhile holds) (rest.dropWhile holds)
      rwa [List.takeWhile_append_dropWhile] at whole
    rw [← List.drop_drop, ← points.rest_eq, split]

/-- A loop over a comment stops where it ends, or where the text does. -/
theorem advance_commentEnd {rounds : Nat} (points : Points bytes s rest) (enough : rest.length < rounds) :
    ∃ stop, advance (atCommentEnd bytes) (fun s => pure (s + 1)) rounds s = .ok stop ∧
      Points bytes stop (findCommentEnd rest) := by
  induction rest generalizing s rounds with
  | nil =>
    obtain ⟨rounds, rfl⟩ := Nat.exists_eq_add_one.mpr enough
    refine ⟨s, ?_, points⟩
    rw [advance, atCommentEnd, points.byte_eq]
    rfl
  | cons c behind inductionHypothesis =>
    obtain ⟨rounds, rfl⟩ := Nat.exists_eq_add_one.mpr (Nat.zero_lt_of_lt enough)
    obtain ⟨further, -⟩ := points.next rfl
    have looks : atCommentEnd bytes s =
        .ok (c = Char.ofNat 0 || (c = '-' && peek behind = '-' && peekNext behind = '>')) := by
      rw [atCommentEnd, points.byte_eq]
      have dashes : starts bytes '-' '>' (s + 1) = .ok (peek behind = '-' && peekNext behind = '>') :=
        further.starts_eq (by decide)
      simp only [bind, Except.bind, peek_cons, dashes]
      by_cases zero : c = Char.ofNat 0
      · simp [zero, pure, Except.pure]
      · by_cases dash : c = '-'
        · subst dash
          cases both : (peek behind = '-' && peekNext behind = '>' : Bool) <;>
            simp_all [pure, Except.pure]
        · simp [zero, dash, pure, Except.pure]
    rw [advance, looks, findCommentEnd]
    simp only [bind, Except.bind, pure, Except.pure]
    split
    · exact ⟨s, rfl, points⟩
    · exact inductionHypothesis further (Nat.lt_of_succ_lt_succ enough)

/-- The loop over a value. -/
def scanLoop (bytes : Text) (quote : Char) : Nat → Nat → Except Stop Nat :=
  advance (fun s => do return (← byte bytes s) = quote) (stepString bytes)

theorem scanLoop_succ {quote : Char} (points : Points bytes s rest) (rounds : Nat) :
    scanLoop bytes quote (rounds + 1) s =
      if peek rest = quote then .ok s
      else scanLoop bytes quote rounds (if peek rest = '\\' then s + 2 else s + 1) := by
  rw [scanLoop, advance, stepString, points.byte_eq]
  by_cases own : peek rest = quote
  · simp [bind, Except.bind, pure, Except.pure, own]
  · by_cases escape : peek rest = '\\' <;> simp [bind, Except.bind, pure, Except.pure, own, escape]

theorem scanLoop_outside {quote : Char} (beyond : bytes.length < s) (rounds : Nat) :
    ∃ index, scanLoop bytes quote (rounds + 1) s = .error (.outside index) := by
  refine ⟨s, ?_⟩
  rw [scanLoop, advance, byte, if_neg (by omega)]
  rfl

/-- A loop over a value leaves the text, or it stops at the quote. -/
theorem scanLoop_spec {quote : Char} (zero : quote ≠ Char.ofNat 0) {rounds : Nat} (points : Points bytes s rest)
    (enough : rest.length + 1 < rounds) :
    (scanString quote rest = none → ∃ index, scanLoop bytes quote rounds s = .error (.outside index)) ∧
      ∀ value behind, scanString quote rest = some (value, behind) →
        scanLoop bytes quote rounds s = .ok (s + value.length) ∧ Points bytes (s + value.length) behind ∧
          rest = value ++ behind := by
  have length := points.length_eq
  have inside := points.inside
  induction rest using scanString.induct quote generalizing s rounds with
  | case1 =>
    rw [List.length_nil] at length enough
    obtain ⟨rounds, rfl⟩ : ∃ further, rounds = further + 1 + 1 := ⟨rounds - 2, by omega⟩
    refine ⟨fun _ => ?_, fun value behind found => absurd found (by simp [scanString])⟩
    rw [scanLoop_succ points, if_neg (Ne.symm zero : peek [] ≠ quote), if_neg (by decide : peek [] ≠ '\\')]
    exact scanLoop_outside (by omega) rounds
  | case2 behind =>
    obtain ⟨rounds, rfl⟩ := Nat.exists_eq_add_one.mpr (Nat.zero_lt_of_lt enough)
    rw [scanString_quote, scanLoop_succ points, peek_cons, if_pos rfl]
    refine ⟨fun none_ => absurd none_ (by simp), fun value rest found => ?_⟩
    obtain ⟨rfl, rfl⟩ := Prod.mk.inj (Option.some.inj found)
    exact ⟨rfl, points, rfl⟩
  | case3 other =>
    rw [List.length_singleton] at length enough
    obtain ⟨rounds, rfl⟩ : ∃ further, rounds = further + 1 + 1 := ⟨rounds - 2, by omega⟩
    refine ⟨fun _ => ?_, fun value behind found => absurd found (by simp [scanString, other])⟩
    rw [scanLoop_succ points, peek_cons, if_neg other, if_pos rfl]
    exact scanLoop_outside (by omega) rounds
  | case4 c behind other inductionHypothesis =>
    obtain ⟨rounds, rfl⟩ := Nat.exists_eq_add_one.mpr (Nat.zero_lt_of_lt enough)
    obtain ⟨further, -⟩ := (points.next rfl).1.next rfl
    simp only [List.length_cons] at enough
    have later := @inductionHypothesis _ rounds further (by omega) further.length_eq further.inside
    rw [scanString_escaped (Ne.symm other), scanLoop_succ points, peek_cons, if_neg other, if_pos rfl]
    refine ⟨fun none_ => later.1 (Option.map_eq_none_iff.mp none_), fun value rest found => ?_⟩
    obtain ⟨⟨inner, last⟩, same, pair⟩ := Option.map_eq_some_iff.mp found
    obtain ⟨rfl, rfl⟩ := Prod.mk.inj pair
    obtain ⟨stops, behind_, split⟩ := later.2 inner last same
    have moved : s + ('\\' :: c :: inner).length = s + 2 + inner.length := by
      simp only [List.length_cons]
      omega
    rw [moved]
    exact ⟨stops, behind_, congrArg ('\\' :: c :: ·) split⟩
  | case5 c behind other unescaped inductionHypothesis =>
    obtain ⟨rounds, rfl⟩ := Nat.exists_eq_add_one.mpr (Nat.zero_lt_of_lt enough)
    obtain ⟨further, -⟩ := points.next rfl
    have later := inductionHypothesis further (Nat.lt_of_succ_lt_succ enough) further.length_eq further.inside
    rw [scanString_plain other unescaped, scanLoop_succ points, peek_cons, if_neg other, if_neg unescaped]
    refine ⟨fun none_ => later.1 (Option.map_eq_none_iff.mp none_), fun value rest found => ?_⟩
    obtain ⟨⟨inner, last⟩, same, pair⟩ := Option.map_eq_some_iff.mp found
    obtain ⟨rfl, rfl⟩ := Prod.mk.inj pair
    obtain ⟨stops, behind_, split⟩ := later.2 inner last same
    have moved : s + (c :: inner).length = s + 1 + inner.length := by
      rw [List.length_cons]
      omega
    rw [moved]
    exact ⟨stops, behind_, congrArg (c :: ·) split⟩

/-! ## Words, names and values -/

/-- Results with a pointer, and with a text. -/
def Same {α : Type} (R : Nat → Text → Prop) (a : α × Nat) (b : α × Text) : Prop := a.1 = b.1 ∧ R a.2 b.2

theorem consume_simulates {w : Char} (nonzero : w ≠ Char.ofNat 0) (points : Points bytes s rest) :
    Simulates Stop.Throws (PointsBehind bytes (· = w)) (consume bytes w s) (Xml.consume w rest) := by
  rw [consume, points.byte_eq, Xml.consume]
  simp only [bind, Except.bind]
  split
  · rename_i same
    obtain ⟨behind, split⟩ := points.exists_cons (same.trans_ne nonzero)
    obtain ⟨further, before⟩ := points.next split
    refine .ok ⟨?_, Nat.succ_pos s, before.trans same⟩
    rw [split]
    exact further
  · exact .error ⟨rfl, rfl⟩

/-- A consumed word, with its last character before the pointer. -/
theorem consumeWord_simulates {word : Text} {last : Char} (nonzero : Char.ofNat 0 ∉ word ++ [last])
    (points : Points bytes s rest) :
    Simulates Stop.Throws (PointsBehind bytes (· = last)) (consumeWord bytes (word ++ [last]) s)
      (Xml.consumeWord (word ++ [last]) rest) := by
  have all : Simulates Stop.Throws (PointsBehind bytes (· = last))
      ((word ++ [last]).foldlM (fun s w => consume bytes w s) s)
      ((word ++ [last]).foldlM (fun s w => Xml.consume w s) rest) := by
    induction word generalizing s rest with
    | nil =>
      have single : last ≠ Char.ofNat 0 := by simpa [eq_comm] using nonzero
      simp only [List.nil_append, List.foldlM_cons, List.foldlM_nil]
      exact (consume_simulates single points).bind fun _ _ related => .ok related
    | cons w word inductionHypothesis =>
      rw [List.cons_append, List.mem_cons, not_or] at nonzero
      simp only [List.cons_append, List.foldlM_cons]
      exact (consume_simulates (Ne.symm nonzero.1) points).bind fun _ _ related =>
        inductionHypothesis nonzero.2 related.1
  rw [consumeWord, Xml.consumeWord]
  generalize (word ++ [last]).foldlM (fun s w => consume bytes w s) s = read at all
  generalize (word ++ [last]).foldlM (fun s w => Xml.consume w s) rest = same at all
  cases all with
  | ok related => exact .ok related
  | error throws =>
    obtain ⟨exception, rfl⟩ := throws
    exact .error ⟨rfl, rfl⟩

theorem consumeComment_simulates (points : Points bytes s rest) :
    Simulates Stop.Throws (PointsBehind bytes (· = '>')) (consumeComment bytes s) (Xml.consumeComment rest) := by
  rw [consumeComment, Xml.consumeComment]
  refine (consume_simulates (by decide) points).bind fun _ _ opened => ?_
  refine (consume_simulates (by decide) opened.1).bind fun start inside marked => ?_
  have length := marked.1.length_eq
  obtain ⟨stop, found, ends⟩ := @advance_commentEnd bytes inside start (bytes.length + 2) marked.1 (by omega)
  refine .bind_left found ?_
  refine (consume_simulates (by decide) ends).bind fun _ _ dash => ?_
  refine (consume_simulates (by decide) dash.1).bind fun _ _ dashes => ?_
  exact consume_simulates (by decide) dashes.1

theorem skipComment_simulates (points : Points bytes s rest) :
    Simulates Stop.Throws (Option.Rel (PointsBehind bytes (· = '>'))) (skipComment bytes s) (Xml.skipComment rest) := by
  rw [skipComment, Xml.skipComment]
  refine .bind_left (points.starts_eq (by decide)) ?_
  split
  · have all := consumeComment_simulates points
    generalize consumeComment bytes s = read at all
    generalize Xml.consumeComment rest = same at all
    cases all with
    | ok related => exact .ok (.some related)
    | error throws => exact .error throws
  · exact .ok .none

theorem skipWhites_eq (points : Points bytes s rest) :
    skipWhites bytes s = .ok (s + (rest.takeWhile isWhite).length) ∧
      Points bytes (s + (rest.takeWhile isWhite).length) (Xml.skipWhites rest) :=
  skipWhile_eq (by decide) points

theorem makeString_eq {text behind : Text} (points : Points bytes s (text ++ behind)) :
    makeString bytes s (s + text.length) = .ok text := by
  rw [makeString, if_neg (by omega), Nat.add_sub_cancel_left, ← points.rest_eq, List.take_left]

/-- An identifier, if there is one. -/
theorem parseIdentifier_eq (points : Points bytes s rest) :
    ∃ found, parseIdentifier bytes s = .ok found ∧
      Option.Rel (Same (Points bytes)) found (Xml.parseIdentifier rest) := by
  rw [parseIdentifier, points.byte_eq]
  cases rest with
  | nil => exact ⟨none, rfl, .none⟩
  | cons c behind =>
    rw [Xml.parseIdentifier]
    simp only [bind, Except.bind]
    by_cases initial : isInitial c = true
    · obtain ⟨further, -⟩ := points.next rfl
      obtain ⟨skipped, ends⟩ := @skipWhile_eq _ _ _ isInner (by decide) further
      have whole : Points bytes s ((c :: behind.takeWhile isInner) ++ behind.dropWhile isInner) := by
        rw [List.cons_append, List.takeWhile_append_dropWhile]
        exact points
      have moved : s + (c :: behind.takeWhile isInner).length = s + 1 + (behind.takeWhile isInner).length := by
        rw [List.length_cons]
        omega
      have made := makeString_eq whole
      rw [moved] at made
      rw [if_pos initial, if_pos (show isInitial (peek (c :: behind)) = true from initial), skipped]
      dsimp only
      rw [made]
      exact ⟨some (c :: behind.takeWhile isInner, s + 1 + (behind.takeWhile isInner).length), rfl, .some ⟨rfl, ends⟩⟩
    · rw [if_neg initial, if_neg (show ¬isInitial (peek (c :: behind)) = true from initial)]
      exact ⟨none, rfl, .none⟩

/-- A value in quotes, which is undefined behaviour if it is not closed. -/
theorem parseQuoted_simulates {quote : Char} (nonzero : quote ≠ Char.ofNat 0) (points : Points bytes s rest) :
    Simulates Stop.Matches (Same (Points bytes)) (parseQuoted bytes quote s) (Xml.parseQuoted quote rest) := by
  rw [parseQuoted, Xml.parseQuoted]
  refine ((consume_simulates nonzero points).mono (fun _ _ => Stop.Throws.matches) fun _ _ => id).bind
    fun start inside opened => ?_
  have length := opened.1.length_eq
  obtain ⟨open_, closed⟩ := @scanLoop_spec bytes inside start quote nonzero (bytes.length + 2) opened.1 (by omega)
  cases found : scanString quote inside with
  | none =>
    obtain ⟨index, outside⟩ := open_ found
    have failed : advance (fun s => do return (← byte bytes s) = quote) (stepString bytes) (bytes.length + 2) start =
        .error (.outside index) := outside
    rw [failed]
    exact .error rfl
  | some pair =>
    obtain ⟨value, behind⟩ := pair
    obtain ⟨stops, ends, split⟩ := closed value behind found
    refine .bind_left stops ?_
    refine .bind_left (makeString_eq (split ▸ opened.1)) ?_
    refine ((consume_simulates nonzero ends).mono (fun _ _ => Stop.Throws.matches) fun _ _ => id).bind
      fun _ _ last => ?_
    exact .ok ⟨rfl, last.1⟩

theorem parseString_simulates (points : Points bytes s rest) :
    Simulates Stop.Matches (Same (Points bytes)) (parseString bytes s) (Xml.parseString rest) := by
  rw [parseString, Xml.parseString]
  refine .bind_left points.byte_eq ?_
  split
  · exact parseQuoted_simulates (by decide) points
  · exact parseQuoted_simulates (by decide) points

/-- Results with a name, a value and a pointer. -/
def SameProp (bytes : Text) (a : Text × Text × Nat) (b : Text × Text × Text) : Prop :=
  a.1 = b.1 ∧ Same (Points bytes) a.2 b.2

/-- A property, if there is one. -/
theorem parseProp_simulates (points : Points bytes s rest) :
    Simulates Stop.Matches (Option.Rel (SameProp bytes)) (parseProp bytes s) (Xml.parseProp rest) := by
  obtain ⟨found, read, related⟩ := parseIdentifier_eq points
  rw [parseProp, Xml.parseProp]
  refine .bind_left read ?_
  generalize Xml.parseIdentifier rest = named at related
  cases related with
  | none => exact .ok .none
  | @some a b same =>
    obtain ⟨name, stop⟩ := a
    obtain ⟨name', behind⟩ := b
    obtain ⟨rfl, ends⟩ := same
    obtain ⟨skipped, sign⟩ := skipWhites_eq ends
    dsimp only
    refine .bind_left skipped ?_
    refine ((consume_simulates (by decide) sign).mono (fun _ _ => Stop.Throws.matches) fun _ _ => id).bind
      fun _ inside assigned => ?_
    obtain ⟨skipped', quoted⟩ := skipWhites_eq assigned.1
    refine .bind_left skipped' ?_
    refine .bind_left quoted.byte_eq ?_
    split
    · exact .error rfl
    · exact (parseString_simulates quoted).bind fun _ _ related => .ok (.some ⟨rfl, related⟩)

/-- The properties of a tag. The induction is on the rounds of the loop. -/
theorem parseProps_simulates (rounds : Nat) (properties : Properties) (points : Points bytes s rest) :
    Simulates Stop.Matches (Same (Points bytes)) (parseProps bytes rounds properties s)
      (Xml.parseProps rounds properties rest) := by
  induction rounds generalizing properties s rest with
  | zero => exact .error rfl
  | succ rounds inductionHypothesis =>
    rw [parseProps, Xml.parseProps]
    refine (parseProp_simulates points).bind fun found same related => ?_
    cases related with
    | none => exact .ok ⟨rfl, points⟩
    | @some a b prop =>
      obtain ⟨name, value, stop⟩ := a
      obtain ⟨name', value', behind⟩ := b
      obtain ⟨rfl, rfl, ends⟩ := prop
      obtain ⟨skipped, further⟩ := skipWhites_eq ends
      exact .bind_left skipped (inductionHypothesis (properties.insert name value) further)

/-! ## Contents -/

/-- A pointer to the end of the text or to a tag, or with no space before it. -/
def Settled (bytes : Text) (s : Nat) (rest : Text) : Prop :=
  Points bytes s rest ∧
    (peek rest = Char.ofNat 0 ∨ peek rest = '<' ∨ Behind bytes (fun c => isspace c = false) s)

theorem PointsBehind.settled (ends : PointsBehind bytes (· = '>') s rest) : Settled bytes s rest := by
  obtain ⟨points, positive, last⟩ := ends
  refine ⟨points, Or.inr (Or.inr ⟨positive, ?_⟩)⟩
  rw [last]
  decide

theorem Points.append {text behind : Text} (points : Points bytes s (text ++ behind)) :
    Points bytes (s + text.length) behind := by
  have length := points.length_eq
  have inside := points.inside
  rw [List.length_append] at length
  refine ⟨by omega, ?_⟩
  rw [← List.drop_drop, ← points.rest_eq, List.drop_left]

theorem Points.behind_append {text behind : Text} {c : Char} (points : Points bytes s ((text ++ [c]) ++ behind)) :
    PointsBehind bytes (· = c) (s + text.length + 1) behind := by
  rw [List.append_assoc] at points
  obtain ⟨further, here⟩ := points.append.next rfl
  refine ⟨further, Nat.succ_pos _, ?_⟩
  rw [Nat.add_sub_cancel]
  exact here

/-- The end of a content is moved back over spaces, to where no space stands before it. -/
theorem trim_eq {spaces behind : Text} (all : ∀ c ∈ spaces, isspace c = true) (points : Points bytes s (spaces ++ behind))
    (before : Behind bytes (fun c => isspace c = false) s) {rounds : Nat} (enough : spaces.length < rounds) :
    trim bytes rounds (s + spaces.length) = .ok s := by
  induction spaces using List.reverseRecOn generalizing behind rounds with
  | nil =>
    obtain ⟨rounds, rfl⟩ := Nat.exists_eq_add_one.mpr enough
    obtain ⟨positive, last⟩ := before
    have inside := points.inside
    have index : ((s + ([] : Text).length : Nat) : Int) - 1 = ((s - 1 : Nat) : Int) := by
      rw [List.length_nil]
      omega
    rw [trim, index, byte, if_pos (by omega), Int.toNat_natCast]
    simp only [bind, Except.bind, last, Bool.false_eq_true, if_false]
    rfl
  | append_singleton spaces c inductionHypothesis =>
    rw [List.length_append, List.length_singleton] at enough ⊢
    obtain ⟨rounds, rfl⟩ := Nat.exists_eq_add_one.mpr (Nat.zero_lt_of_lt enough)
    have space := all c (List.mem_append_right _ (List.mem_singleton.mpr rfl))
    obtain ⟨-, -, last⟩ := points.behind_append
    have further : Points bytes s (spaces ++ ([c] ++ behind)) := by
      rw [← List.append_assoc]
      exact points
    have inside := further.append.inside
    have index : ((s + (spaces.length + 1) : Nat) : Int) - 1 = ((s + spaces.length : Nat) : Int) := by omega
    have same : peek (bytes.drop (s + spaces.length)) = c := by
      rw [← further.append.rest_eq]
      rfl
    rw [trim, index, byte, if_pos (by omega), Int.toNat_natCast, same]
    simp only [bind, Except.bind, space, if_true]
    exact inductionHypothesis (fun d member => all d (List.mem_append_left _ member)) further (by omega)

section Contents

variable {left run : Text} (points : Points bytes s rest) (white : left = Xml.skipWhites rest)
  (content : run = left.takeWhile isContent)
include points white content

theorem content_points :
    Points bytes s (rest.takeWhile isWhite ++ (run ++ left.dropWhile isContent)) := by
  rw [content, List.takeWhile_append_dropWhile, white, Xml.skipWhites, List.takeWhile_append_dropWhile]
  exact points

/-- A content that is more than spaces. -/
theorem content_kept (kept : run.rdropWhile isspace ≠ []) :
    (do
      let stop ← trim bytes (bytes.length + 2) (s + (rest.takeWhile isWhite).length + run.length)
      makeString bytes (s + (rest.takeWhile isWhite).length) stop) = .ok (run.rdropWhile isspace) := by
  have start := (content_points points white content).append
  have last := List.dropLast_append_getLast kept
  have noSpace := List.rdropWhile_last_not isspace run kept
  have parts : run.rdropWhile isspace ++ run.rtakeWhile isspace = run := List.rdropWhile_append_rtakeWhile
  have length := congrArg List.length parts
  rw [List.length_append] at length
  rw [← parts, List.append_assoc] at start
  have behind : PointsBehind bytes (fun c => isspace c = false)
      (s + (rest.takeWhile isWhite).length + (run.rdropWhile isspace).length)
      (run.rtakeWhile isspace ++ left.dropWhile isContent) := by
    have shaped := start
    rw [← last] at shaped
    obtain ⟨further, positive, before⟩ := shaped.behind_append
    have moved : s + (rest.takeWhile isWhite).length + (run.rdropWhile isspace).dropLast.length + 1 =
        s + (rest.takeWhile isWhite).length + (run.rdropWhile isspace).length := by
      have nonempty := List.length_pos_iff.mpr kept
      rw [List.length_dropLast]
      omega
    rw [moved] at further positive before
    refine ⟨further, positive, ?_⟩
    rw [before]
    exact eq_false_of_ne_true noSpace
  have enough : (run.rtakeWhile isspace).length < bytes.length + 2 := by
    have inside := behind.1.append.inside
    omega
  have trimmed := trim_eq (fun _ => List.mem_rtakeWhile_imp) behind.1 behind.2 enough
  rw [← length, ← Nat.add_assoc, trimmed]
  exact makeString_eq start

/-- A content of nothing but spaces, whose end comes to where white space was skipped. -/
theorem content_blank (before : Behind bytes (fun c => isspace c = false) s) (blank : run.rdropWhile isspace = []) :
    (do
      let stop ← trim bytes (bytes.length + 2) (s + (rest.takeWhile isWhite).length + run.length)
      makeString bytes (s + (rest.takeWhile isWhite).length) stop) =
      makeString bytes (s + (rest.takeWhile isWhite).length) s := by
  have start := content_points points white content
  rw [← List.append_assoc] at start
  have all : ∀ c ∈ rest.takeWhile isWhite ++ run, isspace c = true := by
    intro c member
    rcases List.mem_append.mp member with skipped | inside
    · have isSpace := List.mem_takeWhile_imp skipped
      simp [isspace, isSpace]
    · exact List.rdropWhile_eq_nil_iff.mp blank c inside
  have enough : (rest.takeWhile isWhite ++ run).length < bytes.length + 2 := by
    have inside := start.append.inside
    omega
  have trimmed := trim_eq all start before enough
  rw [List.length_append, ← Nat.add_assoc] at trimmed
  rw [trimmed]
  rfl

end Contents

/-! ## Nodes -/

theorem Settled.behind (settled : Settled bytes s rest) (noTag : peek (Xml.skipWhites rest) ≠ '<')
    (noEnd : peek (Xml.skipWhites rest) ≠ Char.ofNat 0) : Behind bytes (fun c => isspace c = false) s := by
  have plain : isWhite (peek rest) = false → Xml.skipWhites rest = rest := by
    intro first
    cases rest with
    | nil => rfl
    | cons c behind => exact List.dropWhile_cons_of_neg (by simpa using first)
  obtain ⟨-, zero | tag | before⟩ := settled
  · rw [plain (by rw [zero]; decide)] at noEnd
    exact absurd zero noEnd
  · rw [plain (by rw [tag]; decide)] at noTag
    exact absurd tag noTag
  · exact before

/-- A node, if what stands between its tags is simulated. -/
theorem parseNode_simulates {body : Node → Nat → Except Stop (Node × Nat)}
    {body' : Node → Text → Except Error (Node × Text)}
    (inside : ∀ node s rest, Settled bytes s rest →
      Simulates Stop.Matches (Same (Settled bytes)) (body node s) (body' node rest))
    (points : Points bytes s rest) :
    Simulates Stop.Matches (Same (Settled bytes)) (parseNode bytes body s) (Xml.parseNode body' rest) := by
  rw [parseNode, Xml.parseNode]
  refine ((consume_simulates (by decide) points).mono (fun _ _ => Stop.Throws.matches) fun _ _ => id).bind
    fun start opened mark => ?_
  obtain ⟨found, read, related⟩ := parseIdentifier_eq mark.1
  refine .bind_left read ?_
  generalize Xml.parseIdentifier opened = named at related
  cases related with
  | none => exact .error rfl
  | @some a b same =>
    obtain ⟨name, stop⟩ := a
    obtain ⟨name', behind⟩ := b
    obtain ⟨rfl, ends⟩ := same
    obtain ⟨skipped, further⟩ := skipWhites_eq ends
    refine .bind_left skipped ?_
    dsimp only
    rw [← further.length_eq]
    refine (parseProps_simulates _ ∅ further).bind fun result same props => ?_
    obtain ⟨properties, stop'⟩ := result
    obtain ⟨properties', rest'⟩ := same
    obtain ⟨rfl, points'⟩ := props
    dsimp only
    refine .bind_left points'.byte_eq ?_
    split
    · refine ((@consumeWord_simulates bytes rest' stop' ['/'] '>' (by decide) points').mono
        (fun _ _ => Stop.Throws.matches) fun _ _ => id).bind fun _ _ closed => ?_
      exact .ok ⟨rfl, closed.settled⟩
    · refine ((@consumeWord_simulates bytes rest' stop' [] '>' (by decide) points').mono
        (fun _ _ => Stop.Throws.matches) fun _ _ => id).bind fun _ _ closed => ?_
      exact inside _ _ _ closed.settled

theorem tag_or_end (rest : Text) :
    peek (rest.dropWhile isContent) = Char.ofNat 0 ∨ peek (rest.dropWhile isContent) = '<' ∨
      Behind bytes (fun c => isspace c = false) s := by
  induction rest with
  | nil => exact Or.inl rfl
  | cons c rest inductionHypothesis =>
    by_cases belongs : isContent c = true
    · rw [List.dropWhile_cons_of_pos belongs]
      exact inductionHypothesis
    · rw [List.dropWhile_cons_of_neg belongs, peek_cons]
      simp only [isContent, ne_eq, Bool.and_eq_true, decide_eq_true_eq, not_and_or, not_not] at belongs
      exact belongs.symm.imp_right Or.inl

theorem identifier_getD {found : Option (Text × Nat)} {found' : Option (Text × Text)} (points : Points bytes s rest)
    (related : Option.Rel (Same (Points bytes)) found found') :
    Same (Points bytes) (found.getD ([], s)) (found'.getD ([], rest)) := by
  cases related with
  | none => exact ⟨rfl, points⟩
  | some same => exact same

/-- What stands between two tags. The induction is on the rounds of the loop, and in each round one of the
branches is taken by both. -/
theorem parseBody_simulates (rounds : Nat) (node : Node) (settled : Settled bytes s rest) :
    Simulates Stop.Matches (Same (Settled bytes)) (parseBody bytes rounds node s)
      (Xml.parseBody rounds node rest) := by
  induction rounds generalizing node s rest with
  | zero => exact .error rfl
  | succ rounds inductionHypothesis =>
    obtain ⟨skipped, points⟩ := skipWhites_eq settled.1
    rw [parseBody, Xml.parseBody]
    refine .bind_left skipped ?_
    refine ((skipComment_simulates points).mono (fun _ _ => Stop.Throws.matches) fun _ _ => id).bind
      fun comment same related => ?_
    cases related with
    | some behind => exact inductionHypothesis node behind.settled
    | none =>
      dsimp only
      refine .bind_left (points.starts_eq (by decide)) ?_
      split
      · -- the end tag
        refine ((@consumeWord_simulates bytes _ _ ['<'] '/' (by decide) points).mono (fun _ _ => Stop.Throws.matches)
          fun _ _ => id).bind fun _ _ opened => ?_
        obtain ⟨found, read, related⟩ := parseIdentifier_eq opened.1
        refine .bind_left read ?_
        obtain ⟨named, further⟩ := identifier_getD opened.1 related
        rw [← named]
        split
        · exact .error rfl
        · refine ((@consumeWord_simulates bytes _ _ [] '>' (by decide) further).mono
            (fun _ _ => Stop.Throws.matches) fun _ _ => id).bind fun _ _ closed => ?_
          exact .ok ⟨rfl, closed.settled⟩
      · refine .bind_left points.byte_eq ?_
        split
        · -- a child
          refine (parseNode_simulates (fun node s rest settled => inductionHypothesis node settled) points).bind
            fun result same child => ?_
          obtain ⟨read, stop⟩ := result
          obtain ⟨read', behind⟩ := same
          obtain ⟨rfl, further⟩ := child
          exact inductionHypothesis _ further
        · rename_i noTag
          split
          · rename_i ended
            exact .ok ⟨rfl, points, Or.inl ended⟩
          · rename_i noEnd
            split
            · exact .error rfl
            · -- a content
              obtain ⟨passed, ends⟩ := @skipWhile_eq _ _ _ isContent (by decide) points
              have before := settled.behind noTag noEnd
              have next : Settled bytes _ ((Xml.skipWhites rest).dropWhile isContent) := ⟨ends, tag_or_end _⟩
              refine .bind_left passed ?_
              rw [← bind_assoc]
              by_cases blank : ((Xml.skipWhites rest).takeWhile isContent).rdropWhile isspace = []
              · rw [content_blank settled.1 rfl rfl before blank, blank, makeString]
                have length := settled.1.length_eq
                have inside := points.length_eq
                by_cases white : s < s + (rest.takeWhile isWhite).length
                · rw [if_pos white, if_pos]
                  · exact .error rfl
                  · have within := points.inside
                    simp only [decide_true, Bool.true_and, decide_eq_true_eq]
                    omega
                · rw [if_neg white, if_neg]
                  · have none_ : s + (rest.takeWhile isWhite).length = s := by omega
                    rw [none_, Nat.sub_self, List.take_zero]
                    exact inductionHypothesis _ (none_ ▸ next)
                  · simp only [decide_true, Bool.true_and, decide_eq_true_eq]
                    omega
              · refine .bind_left (content_kept settled.1 rfl rfl blank) ?_
                rw [if_neg]
                · exact inductionHypothesis _ next
                · simp only [blank, decide_false, Bool.false_and, Bool.false_eq_true, not_false_iff]

/-! ## Documents -/

/-- The header, if it is one. -/
theorem parseHeader_simulates (points : Points bytes s rest) :
    Simulates Stop.Matches (Option.Rel (Points bytes)) (parseHeader bytes s) (Xml.parseHeader rest) := by
  have closing : ∀ {s rest}, Points bytes s rest →
      Simulates Stop.Matches (Option.Rel (Points bytes))
        (do
          let s ← consumeWord bytes ['?', '>'] s
          return some s)
        ((Xml.consumeWord ['?', '>'] rest).map some) := by
    intro s rest points
    have sequence : ∀ x : Except Error Text, x.map some = x >>= fun rest => .ok (some rest) := by
      intro x
      cases x <;> rfl
    rw [sequence]
    exact ((@consumeWord_simulates bytes rest s ['?'] '>' (by decide) points).mono
      (fun _ _ => Stop.Throws.matches) fun _ _ => id).bind fun _ _ closed => .ok (.some closed.1)
  rw [parseHeader, Xml.parseHeader]
  refine ((@consumeWord_simulates bytes rest s ['<', '?', 'x', 'm'] 'l' (by decide) points).mono
    (fun _ _ => Stop.Throws.matches) fun _ _ => id).bind fun start behind word => ?_
  refine .bind_left (word.1.starts_eq (by decide)) ?_
  split
  · exact closing word.1
  · refine .bind_left word.1.byte_eq ?_
    split
    · exact .ok .none
    · rename_i white
      have nonzero : peek behind ≠ Char.ofNat 0 := by
        intro zero
        rw [zero] at white
        exact white (by decide)
      obtain ⟨further, split⟩ := word.1.exists_cons nonzero
      obtain ⟨next, -⟩ := word.1.next split
      have tail : behind.tail = further := by rw [split, List.tail_cons]
      obtain ⟨skipped, points'⟩ := skipWhites_eq next
      refine .bind_left skipped ?_
      dsimp only
      rw [tail, ← points'.length_eq]
      refine (parseProps_simulates _ ∅ points').bind fun result same props => ?_
      obtain ⟨properties, stop⟩ := result
      obtain ⟨properties', last⟩ := same
      exact closing props.2

/-- The nodes of a document. The induction is on the rounds of the loop. -/
theorem parseNodes_simulates (rounds : Nat) (child : List Node) (points : Points bytes s rest) :
    Simulates Stop.Matches (Same (Points bytes)) (parseNodes bytes rounds child s)
      (Xml.parseNodes rounds child rest) := by
  induction rounds generalizing child s rest with
  | zero => exact .error rfl
  | succ rounds inductionHypothesis =>
    rw [parseNodes, Xml.parseNodes]
    refine .bind_left points.byte_eq ?_
    split
    · exact .ok ⟨rfl, points⟩
    · refine ((skipComment_simulates points).mono (fun _ _ => Stop.Throws.matches) fun _ _ => id).bind
        fun comment same related => ?_
      cases related with
      | some behind =>
        obtain ⟨skipped, further⟩ := skipWhites_eq behind.1
        exact .bind_left skipped (inductionHypothesis child further)
      | none =>
        refine (parseNode_simulates (fun node s rest => parseBody_simulates rounds node) points).bind
          fun result same node => ?_
        obtain ⟨read, stop⟩ := result
        obtain ⟨read', behind⟩ := same
        obtain ⟨rfl, ends⟩ := node
        obtain ⟨skipped, further⟩ := skipWhites_eq ends.1
        exact .bind_left skipped (inductionHypothesis _ further)

/-- With pointers the parser does what it does with texts. -/
theorem parseXML_simulates (bytes : Text) :
    Simulates Stop.Matches (fun child same => child = same.1) (parseXML bytes) (Xml.parseXML bytes) := by
  rw [parseXML, Xml.parseXML]
  have header : Simulates Stop.Matches (Points bytes) (skipHeader bytes 0) (Xml.skipHeader bytes) := by
    rw [skipHeader, Xml.skipHeader]
    refine .bind_left ((Points.start bytes).starts_eq (by decide)) ?_
    split
    · refine (parseHeader_simulates (Points.start bytes)).bind fun found same related => ?_
      cases related with
      | none => exact .error rfl
      | some points => exact .ok points
    · exact .ok (Points.start bytes)
  refine header.bind fun start behind points => ?_
  obtain ⟨skipped, further⟩ := skipWhites_eq points
  refine .bind_left skipped ?_
  dsimp only
  rw [← further.length_eq]
  refine (parseNodes_simulates _ [] further).bind fun result same nodes => ?_
  obtain ⟨child, stop⟩ := result
  obtain ⟨child', last⟩ := same
  obtain ⟨rfl, ends⟩ := nodes
  refine .bind_left ends.byte_eq ?_
  split
  · exact .error rfl
  · exact .ok rfl

end Ospray.Xml.Pointers
