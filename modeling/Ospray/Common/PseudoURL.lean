import Ospray.Library.Positions

/-!
# Pseudo URLs

A pseudo URL `type://file:name=value:...` is cut into its type, its file name and its parameters. The tokenizer means to
leave out what is empty, between two delimiters or behind the last one, and leaves out what has one character as well.

A `std::string` is a list of characters. The loop over the parameters keeps the number of one in an `int`.
-/

namespace Ospray.Urls

open Library.Positions

/-- A `std::string`. -/
abbrev Text := List Char

/-- A `size_t` that is assigned to an `int`. -/
def toInt (value : Nat) : Int := (value : Int).bmod (2 ^ 32)

/-- `tokenize`, from the position `prev` on. A token is kept if it is longer than one character. -/
def tokenize (str : Text) (delim : Char) : List Text :=
  match _found : str.findIdx? (· = delim) with
  | none => if 1 < str.length then [str] else []
  | some fnd => (if 1 < fnd then [str.take fnd] else []) ++ tokenize (str.drop (fnd + 1)) delim
termination_by str.length
decreasing_by
  have inside := (List.findIdx?_eq_some_iff_getElem.mp _found).1
  rw [List.length_drop]
  omega

/-- What the constructor makes of a component behind the first one. -/
def parseParam (arg : Text) : Text × Text :=
  match arg.findIdx? (· = '=') with
  | some equalSign => (arg.take equalSign, arg.drop (equalSign + 1))
  | none => (arg, [])

/-- `PseudoURL` -/
structure PseudoURL where
  type : Text
  fileName : Text
  params : List (Text × Text)
deriving DecidableEq

/-- What separates the type from the rest. -/
def separator : Text := [':', '/', '/']

/-- The components behind the type. -/
def PseudoURL.ofComponents (type : Text) : List Text → PseudoURL
  | [] => { type := type, fileName := [], params := [] }
  | fileName :: args => { type := type, fileName := fileName, params := args.map parseParam }

/-- The constructor. -/
def PseudoURL.parse (inputString : Text) : PseudoURL :=
  match findWord separator inputString with
  | some position =>
    .ofComponents (inputString.take position) (tokenize (inputString.drop (position + 3)) ':')
  | none => .ofComponents [] (tokenize inputString ':')

/-- The exception of `getValue`, and a parameter that is not there. -/
inductive Error where
  | notSpecified
  | outside
deriving DecidableEq

/-- The loop of `getValue`. -/
def findParam (params : List (Text × Text)) (name : Text) : Int :=
  params.zipIdx.foldl (fun found param => if param.1.1 = name then toInt param.2 else found) (-1)

/-- `getValue` -/
def PseudoURL.getValue (self : PseudoURL) (name : Text) : Except Error Text :=
  let found := findParam self.params name
  if found < 0 then .error .notSpecified
  else
    match self.params[found.toNat]? with
    | none => .error .outside
    | some param => .ok param.2

/-- `hasParam` -/
def PseudoURL.hasParam (self : PseudoURL) (name : Text) : Bool := self.params.any fun param => param.1 = name

/-! ## What is written -/

/-- A parameter, with a value or without. -/
structure Param where
  name : Text
  value : Option Text
  nonempty : name ≠ []
  name_colon : ':' ∉ name
  name_equal : '=' ∉ name
  value_colon : ∀ v ∈ value, ':' ∉ v

/-- The text of a parameter. -/
def Param.text (self : Param) : Text :=
  self.name ++ match self.value with
    | none => []
    | some value => '=' :: value

/-- The name and the value, which is empty where none is given. -/
def Param.pair (self : Param) : Text × Text := (self.name, self.value.getD [])

/-- A URL. -/
def url (type file : Text) (params : List Param) : Text :=
  type ++ (separator ++ (file ++ params.flatMap fun param => ':' :: param.text))

/-- The last parameter with a name, its value and its number. -/
def LastAt (params : List (Text × Text)) (name value : Text) (number : Nat) : Prop :=
  ∃ before after, params = before ++ (name, value) :: after ∧ before.length = number ∧ ∀ param ∈ after, param.1 ≠ name

/-- The number of the last parameter with each name is that of a parameter with the same value, as an `int`. -/
def Counts (params : List (Text × Text)) : Prop :=
  ∀ name value number, LastAt params name value number →
    ∃ found : Nat, toInt number = found ∧ ∃ other, params[found]? = some (other, value)

/-! ## Tokens -/

variable {delim : Char} {token rest : Text}

theorem tokenize_append (none_ : delim ∉ token) (rest : Text) :
    tokenize (token ++ delim :: rest) delim = (if 1 < token.length then [token] else []) ++ tokenize rest delim := by
  have found : (token ++ delim :: rest).findIdx? (· = delim) = some token.length :=
    findIdx?_append_cons (fun c member => decide_eq_false fun same => none_ (same ▸ member)) (decide_eq_true rfl)
  rw [tokenize]
  split
  · rename_i missing
    rw [found] at missing
    cases missing
  · rename_i fnd first
    obtain rfl : token.length = fnd := Option.some.inj (found.symm.trans first)
    rw [take_append_cons, drop_append_cons]

theorem tokenize_last (none_ : delim ∉ token) : tokenize token delim = if 1 < token.length then [token] else [] := by
  have missing : token.findIdx? (· = delim) = none :=
    List.findIdx?_eq_none_iff.mpr fun c member => decide_eq_false fun same => none_ (same ▸ member)
  rw [tokenize]
  split
  · rfl
  · rename_i fnd first
    rw [missing] at first
    cases first

theorem tokenize_tokens (first : Text) (others : List Text) (none_ : ∀ token ∈ first :: others, delim ∉ token) :
    tokenize (first ++ others.flatMap (delim :: ·)) delim = (first :: others).filter (1 < ·.length) := by
  induction others generalizing first with
  | nil =>
    rw [List.flatMap_nil, List.append_nil, tokenize_last (none_ first List.mem_cons_self), List.filter_cons]
    simp
  | cons second others inductionHypothesis =>
    rw [List.flatMap_cons, List.cons_append, tokenize_append (none_ first List.mem_cons_self),
      inductionHypothesis second fun token member => none_ token (List.mem_cons_of_mem _ member),
      List.filter_cons (x := first)]
    by_cases long : 1 < first.length <;> simp [long]

/-! ## Parameters -/

theorem Param.colon (param : Param) : ':' ∉ param.text := by
  rw [Param.text, List.mem_append, not_or]
  refine ⟨param.name_colon, ?_⟩
  cases given : param.value with
  | none => simp
  | some value =>
    have inside := param.value_colon value given
    simp [inside]

theorem parseParam_text (param : Param) : parseParam param.text = param.pair := by
  have none_ : ∀ c ∈ param.name, decide (c = '=') = false :=
    fun c member => decide_eq_false fun same => param.name_equal (same ▸ member)
  rw [parseParam, Param.text, Param.pair]
  cases param.value with
  | none =>
    rw [List.append_nil, List.findIdx?_eq_none_iff.mpr none_]
    rfl
  | some value =>
    simp only [findIdx?_append_cons none_ (decide_eq_true rfl), take_append_cons, drop_append_cons, Option.getD_some]

/-! ## Values -/

variable {params : List (Text × Text)} {name value : Text} {number : Nat}

theorem foldl_other (others : ∀ param ∈ params, param.1 ≠ name) (found : Int) (first : Nat) :
    (params.zipIdx first).foldl (fun found param => if param.1.1 = name then toInt param.2 else found) found = found := by
  induction params generalizing first with
  | nil => rfl
  | cons param params inductionHypothesis =>
    rw [List.zipIdx_cons, List.foldl_cons, if_neg (others param List.mem_cons_self)]
    exact inductionHypothesis (fun other member => others other (List.mem_cons_of_mem _ member)) (first + 1)

theorem findParam_last (last : LastAt params name value number) : findParam params name = toInt number := by
  obtain ⟨before, after, rfl, rfl, others⟩ := last
  rw [findParam, List.zipIdx_append, List.foldl_append, List.zipIdx_cons, List.foldl_cons, if_pos rfl,
    foldl_other others, Nat.zero_add]

/-- The value of the last parameter with a name is found where its number counts. -/
theorem getValue_iff {self : PseudoURL} (last : LastAt self.params name value number) :
    self.getValue name = .ok value ↔
      ∃ found : Nat, toInt number = found ∧ ∃ other, self.params[found]? = some (other, value) := by
  rw [PseudoURL.getValue, findParam_last last]
  constructor
  · intro done
    split at done
    · cases done
    · rename_i positive
      split at done
      · cases done
      · rename_i param inside
        refine ⟨(toInt number).toNat, (Int.toNat_of_nonneg (Int.not_lt.mp positive)).symm, param.1, ?_⟩
        rw [inside, ← Except.ok.inj done]
  · rintro ⟨found, same, other, inside⟩
    rw [same, if_neg (by omega), Int.toNat_natCast, inside]

theorem bmod_small {value : Int} (least : 0 ≤ value) (less : value < 2 ^ 31) : value.bmod (2 ^ 32) = value := by
  rw [Int.bmod_def]
  omega

theorem toInt_eq (less : number < 2 ^ 31) : toInt number = number := by
  apply bmod_small (Int.natCast_nonneg _)
  exact_mod_cast less

theorem counts_of_length (few : params.length ≤ 2 ^ 31) : Counts params := by
  intro name value number last
  obtain ⟨before, after, whole, same, -⟩ := last
  have inside : params[number]? = some (name, value) := by
    rw [whole, ← same, List.getElem?_append_right (Nat.le_refl _), Nat.sub_self, List.getElem?_cons_zero]
  have less : number < params.length := (List.getElem?_eq_some_iff.mp inside).1
  exact ⟨number, toInt_eq (Nat.lt_of_lt_of_le less few), name, inside⟩

/-! ## URLs -/

variable {type file : Text}

theorem parse_url (noColon : ':' ∉ type) (plain : ':' ∉ file) (params : List Param) :
    PseudoURL.parse (url type file params) =
      .ofComponents type ((file :: params.map Param.text).filter (1 < ·.length)) := by
  have found : findWord separator (url type file params) = some type.length := findWord_append noColon
  have behind : (url type file params).drop (type.length + 3) = file ++ (params.map Param.text).flatMap (':' :: ·) := by
    rw [url, List.drop_append, List.flatMap_map]
    simp [separator]
  have tokens : ∀ token ∈ file :: params.map Param.text, ':' ∉ token := by
    intro token member
    rcases List.mem_cons.mp member with rfl | member
    · exact plain
    · obtain ⟨param, -, rfl⟩ := List.mem_map.mp member
      exact param.colon
  rw [PseudoURL.parse, found]
  dsimp only
  rw [behind, tokenize_tokens file _ tokens, url, List.take_left]

/-- A URL is read as what it is written from, with the names it lists and the last value of each, exactly if its file
name and its parameters are longer than one character and the numbers of the parameters count. -/
theorem parse_url_iff (type file : Text) (params : List Param) (noColon : ':' ∉ type) (nonempty : file ≠ [])
    (plain : ':' ∉ file) :
    let parsed := PseudoURL.parse (url type file params)
    let pairs := params.map Param.pair
    (parsed.type = type ∧ parsed.fileName = file ∧ parsed.params = pairs ∧
        (∀ name, parsed.hasParam name = true ↔ ∃ param ∈ params, param.name = name) ∧
        ∀ name value number, LastAt pairs name value number → parsed.getValue name = .ok value) ↔
      1 < file.length ∧ (∀ param ∈ params, 1 < param.text.length) ∧ Counts pairs := by
  intro parsed pairs
  have components : parsed = .ofComponents type ((file :: params.map Param.text).filter (1 < ·.length)) :=
    parse_url noColon plain params
  have whole : ∀ kept : List Text, kept.map parseParam = pairs → kept.length = params.length := by
    intro kept same
    have lengths := congrArg List.length same
    rwa [List.length_map, List.length_map] at lengths
  constructor
  · rintro ⟨-, named, all, -, values⟩
    by_cases long : 1 < file.length
    · rw [List.filter_cons_of_pos (by simpa using long)] at components
      have kept := whole _ (by rw [← all, components]; rfl)
      rw [← List.length_map (f := Param.text), List.length_filter_eq_length_iff] at kept
      refine ⟨long, fun param member => ?_, fun name value number last => ?_⟩
      · exact of_decide_eq_true (kept _ (List.mem_map_of_mem member))
      · rw [← all]
        exact (getValue_iff (all ▸ last)).mp (values name value number last)
    · rw [List.filter_cons_of_neg (by simpa using long)] at components
      rw [components] at named
      -- A file name that is dropped is taken from the first parameter that is kept.
      cases kept : (params.map Param.text).filter (1 < ·.length) with
      | nil =>
        rw [kept] at named
        exact absurd named.symm nonempty
      | cons token others =>
        have longer : token ∈ (params.map Param.text).filter (1 < ·.length) := kept ▸ List.mem_cons_self
        rw [kept] at named
        obtain rfl : token = file := named
        exact absurd (of_decide_eq_true (List.mem_filter.mp longer).2) long
  · rintro ⟨long, others, counts⟩
    have kept : (file :: params.map Param.text).filter (1 < ·.length) = file :: params.map Param.text := by
      rw [List.filter_eq_self]
      intro token member
      rcases List.mem_cons.mp member with rfl | member
      · exact decide_eq_true long
      · obtain ⟨param, inside, rfl⟩ := List.mem_map.mp member
        exact decide_eq_true (others param inside)
    rw [kept] at components
    have all : parsed.params = pairs := by
      rw [components]
      change (params.map Param.text).map parseParam = params.map Param.pair
      rw [List.map_map]
      exact List.map_congr_left fun param _ => parseParam_text param
    refine ⟨by rw [components]; rfl, by rw [components]; rfl, all, fun name => ?_, fun name value number last => ?_⟩
    · rw [PseudoURL.hasParam, all, List.any_map, List.any_eq_true]
      exact exists_congr fun param => and_congr_right fun _ => decide_eq_true_iff
    · rw [getValue_iff (all ▸ last), all]
      exact counts name value number last

/-- A parameter that is written with one character. -/
def short : Param :=
  { name := ['n'], value := none, nonempty := by decide, name_colon := by decide, name_equal := by decide
    value_colon := fun _ given => nomatch given }

/-- A parameter with a value. -/
def long : Param :=
  { name := ['n'], value := some ['1'], nonempty := by decide, name_colon := by decide, name_equal := by decide
    value_colon := by simp }

/-- A URL with one parameter. -/
theorem parse_url_iff_long : (PseudoURL.parse (url ['t'] ['f', 'f'] [long])).params = [(['n'], ['1'])] :=
  ((parse_url_iff ['t'] ['f', 'f'] [long] (by decide) (by decide) (by decide)).mpr
    ⟨by decide, by decide, counts_of_length (by decide)⟩).2.2.1

/-- A parameter with one character is dropped. -/
theorem parse_short : ¬∀ (type file : Text) (params : List Param), ':' ∉ type → file ≠ [] → ':' ∉ file →
    (PseudoURL.parse (url type file params)).params = params.map Param.pair := by
  intro reads
  have same := reads ['t'] ['f', 'f'] [short] (by decide) (by decide) (by decide)
  rw [parse_url (by decide) (by decide)] at same
  exact absurd same (by decide)

end Ospray.Urls
