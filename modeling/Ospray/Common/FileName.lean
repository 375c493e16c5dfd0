import Mathlib.Data.List.DropRight
import Ospray.Library.Positions

/-!
# File names

A `FileName` holds a path in a normal form: separators are slashes, and none stands at the end. Its methods look for the
last separator or the last dot of the whole path, each on its own. Where the last dot stands in a directory, some of them
cut there. The difference of two names cuts at the first character of the one that occurs in the other.
-/

namespace Ospray.Files

open Library.Positions

/-- A `std::string`. -/
abbrev Text := List Char

/-- `path_sep` -/
def pathSep : Char := '/'

/-- A file name, in its normal form. -/
structure FileName where
  filename : Text
  noBackslash : '\\' ∉ filename
  noTrailing : ∀ nonempty : filename ≠ [], filename.getLast nonempty ≠ pathSep

theorem FileName.ext_filename {f g : FileName} (same : f.filename = g.filename) : f = g := by
  cases f
  cases g
  cases same
  rfl

/-- What the constructor makes of one character. -/
def slash (c : Char) : Char := if c = '\\' ∨ c = '/' then pathSep else c

/-- The constructor. -/
def FileName.ofString (s : Text) : FileName where
  filename := (s.map slash).rdropWhile (· = pathSep)
  noBackslash member := by
    obtain ⟨c, -, same⟩ := List.mem_map.mp ((List.rdropWhile_prefix _ _).subset member)
    unfold slash at same
    split at same
    · exact absurd same (by decide)
    · rename_i other
      exact other (Or.inl same)
  noTrailing nonempty := by simpa using List.rdropWhile_last_not (fun c => decide (c = pathSep)) _ nonempty

namespace FileName

/-- Where `name` and `setExt` start: behind the last separator. -/
def start (f : FileName) : Nat :=
  match findLast (· = pathSep) f.filename with
  | none => 0
  | some pos => pos + 1

/-- `path` -/
def path (f : FileName) : Text :=
  match findLast (· = pathSep) f.filename with
  | none => []
  | some pos => f.filename.take (pos + 1)

/-- `base` -/
def base (f : FileName) : Text :=
  match findLast (· = pathSep) f.filename with
  | none => f.filename
  | some pos => f.filename.drop (pos + 1)

/-- `ext` -/
def ext (f : FileName) : Text :=
  match findLast (· = '.') f.filename with
  | none => []
  | some pos => f.filename.drop (pos + 1)

/-- `dropExt` -/
def dropExt (f : FileName) : FileName :=
  match findLast (· = '.') f.filename with
  | none => ofString f.filename
  | some pos => ofString (f.filename.take pos)

/-- `name` -/
def name (f : FileName) : Text :=
  let stop :=
    match findLast (· = '.') f.filename with
    | none => f.filename.length
    | some stop => if stop < f.start then f.filename.length else stop
  (f.filename.drop f.start).take (stop - f.start)

/-- `setExt` -/
def setExt (f : FileName) (ext : Text) : FileName :=
  match findLast (· = '.') f.filename with
  | none => ofString (f.filename ++ ext)
  | some stop => if stop < f.start then ofString (f.filename ++ ext) else ofString (f.filename.take stop ++ ext)

/-- `operator+` -/
def add (f other : FileName) : FileName :=
  if f.filename = [] then other else ofString (f.filename ++ pathSep :: other.filename)

/-- `operator-` -/
def sub (f base : FileName) : FileName :=
  match f.filename.findIdx? (· ∈ base.filename) with
  | none => f
  | some pos => ofString (f.filename.drop (pos + 1))

end FileName

/-! ## Normal forms -/

theorem ofString_normal {s : Text} (noBackslash : '\\' ∉ s) (noTrailing : ∀ nonempty : s ≠ [], s.getLast nonempty ≠ pathSep) :
    (FileName.ofString s).filename = s := by
  have unchanged : ∀ c ∈ s, slash c = c := by
    intro c member
    have other : c ≠ '\\' := fun backslash => noBackslash (backslash ▸ member)
    by_cases separator : c = '/'
    · rw [slash, if_pos (Or.inr separator), separator, pathSep]
    · rw [slash, if_neg (not_or.mpr ⟨other, separator⟩)]
  change (s.map slash).rdropWhile (· = pathSep) = s
  rw [List.map_congr_left unchanged, List.map_id', List.rdropWhile_eq_self_iff]
  intro nonempty
  simpa using noTrailing nonempty

variable {f : FileName}

theorem ofString_filename : FileName.ofString f.filename = f :=
  FileName.ext_filename (ofString_normal f.noBackslash f.noTrailing)

/-- A path is what stands before the last separator, with it, and what stands behind. -/
theorem split_path (f : FileName) : ∃ p b, f.filename = p ++ b ∧ pathSep ∉ b ∧ (p = [] ∨ ∃ d, p = d ++ [pathSep]) ∧
    f.path = p ∧ f.base = b ∧ f.start = p.length := by
  rcases last_cases (fun c => decide (c = pathSep)) f.filename with none_ | ⟨d, c, b, whole, found, none_⟩
  · refine ⟨[], f.filename, rfl, fun member => of_decide_eq_false (none_ _ member) rfl, Or.inl rfl, ?_⟩
    simp only [FileName.path, FileName.base, FileName.start, findLast_none.mpr none_, List.length_nil, and_self]
  · obtain rfl := of_decide_eq_true found
    have position : findLast (fun c => decide (c = pathSep)) f.filename = some d.length := by
      rw [whole]
      exact findLast_append_cons none_ found
    refine ⟨d ++ [pathSep], b, by rw [whole, List.append_cons], fun member => of_decide_eq_false (none_ _ member) rfl,
      Or.inr ⟨d, rfl⟩, ?_, ?_, ?_⟩
    · rw [FileName.path, position, whole]
      exact take_succ_append_cons
    · rw [FileName.base, position, whole]
      exact drop_append_cons
    · rw [FileName.start, position, List.length_append, List.length_singleton]

/-! ## Dots -/

theorem no_dot (none_ : '.' ∉ f.filename) :
    f.ext = [] ∧ f.dropExt = f ∧ f.name = f.filename.drop f.start ∧ ∀ x, f.setExt x = .ofString (f.filename ++ x) := by
  have position : findLast (fun c => decide (c = '.')) f.filename = none :=
    findLast_none.mpr fun c member => decide_eq_false fun same => none_ (same ▸ member)
  refine ⟨by rw [FileName.ext, position], by rw [FileName.dropExt, position]; exact ofString_filename, ?_,
    fun x => by rw [FileName.setExt, position]⟩
  simp only [FileName.name, position]
  exact List.take_of_length_le (by rw [List.length_drop])

section Dots

variable {before after : Text} (whole : f.filename = before ++ '.' :: after) (last : '.' ∉ after)
include whole last

theorem last_dot : findLast (fun c => decide (c = '.')) f.filename = some before.length := by
  rw [whole]
  exact findLast_append_cons (fun c member => decide_eq_false fun same => last (same ▸ member)) (decide_eq_true rfl)

theorem ext_last_dot : f.ext = after ∧ f.dropExt = .ofString before := by
  have position := last_dot whole last
  constructor
  · rw [FileName.ext, position, whole]
    exact drop_append_cons
  · rw [FileName.dropExt, position, whole]
    exact congrArg FileName.ofString take_append_cons

/-- Behind the last separator the last dot ends the name, and another extension replaces what follows. -/
theorem name_last_dot (behind : f.start ≤ before.length) :
    f.name = before.drop f.start ∧ ∀ x, f.setExt x = .ofString (before ++ x) := by
  have position := last_dot whole last
  have goesOn : ¬before.length < f.start := Nat.not_lt.mpr behind
  constructor
  · simp only [FileName.name, position, if_neg goesOn]
    rw [whole, List.drop_append_of_le_length behind, List.take_left' (List.length_drop ..)]
  · intro x
    simp only [FileName.setExt, position, if_neg goesOn]
    rw [whole, take_append_cons]

end Dots

/-- A name with a new extension has this extension, and what stands before it. -/
theorem ofString_dotted {q x : Text} (noBackslash : '\\' ∉ q ++ x) (noDot : '.' ∉ x) (noSeparator : pathSep ∉ x) :
    (FileName.ofString (q ++ '.' :: x)).ext = x ∧ (FileName.ofString (q ++ '.' :: x)).dropExt = .ofString q := by
  have normal : (FileName.ofString (q ++ '.' :: x)).filename = q ++ '.' :: x := by
    apply ofString_normal
    · simp only [List.mem_append, List.mem_cons, not_or] at noBackslash ⊢
      exact ⟨noBackslash.1, by decide, noBackslash.2⟩
    · intro nonempty
      rw [List.getLast_append_of_ne_nil _ (List.cons_ne_nil _ _)]
      intro same
      have member := List.getLast_mem (List.cons_ne_nil '.' x)
      rw [same] at member
      rcases List.mem_cons.mp member with dot | inside
      · exact absurd dot (by decide)
      · exact noSeparator inside
  exact ext_last_dot normal noDot

/-! ## Laws -/

/-- A path that does not start at the root. -/
def Relative (f : FileName) : Prop := f.filename.head? ≠ some pathSep

/-- What the methods are meant to fulfil, for a new extension and a directory. -/
structure Laws (f : FileName) (x : Text) (directory : FileName) : Prop where
  reassembles : f.path ++ f.base = f.filename
  dotted : '.' ∈ f.base → f.base = f.name ++ '.' :: f.ext
  plain : '.' ∉ f.base → f.ext = [] ∧ f.dropExt = f ∧ f.name = f.base
  setExt_ext : (f.setExt ('.' :: x)).ext = x
  setExt_dropExt : (f.setExt ('.' :: x)).dropExt = f.dropExt
  difference : Relative f → (directory.add f).sub directory = f

/-- A path with a dot has one behind its last separator. -/
def DotBehind (f : FileName) : Prop :=
  '.' ∈ f.filename → ∃ before after, f.filename = before ++ '.' :: after ∧ pathSep ∉ after

/-- The directory is empty, or it is one character and the other name is empty. -/
def Removable (f directory : FileName) : Prop :=
  directory.filename = [] ∨ (f.filename = [] ∧ directory.filename.length = 1)

theorem length_ofString_le (s : Text) : (FileName.ofString s).filename.length ≤ s.length := by
  have shorter := (List.rdropWhile_prefix (fun c => decide (c = pathSep)) (s.map slash)).length_le
  rwa [List.length_map] at shorter

theorem filename_joined {s : Text} (noBackslash : '\\' ∉ s) (nonempty : f.filename ≠ []) :
    (FileName.ofString (s ++ pathSep :: f.filename)).filename = s ++ pathSep :: f.filename := by
  apply ofString_normal
  · rw [List.mem_append, List.mem_cons, not_or, not_or]
    exact ⟨noBackslash, by decide, f.noBackslash⟩
  · intro _
    rw [List.getLast_append_of_ne_nil _ (List.cons_ne_nil _ _), List.getLast_cons nonempty]
    exact f.noTrailing nonempty

theorem ofString_separator (s : Text) : FileName.ofString (s ++ [pathSep]) = .ofString s := by
  apply FileName.ext_filename
  change ((s ++ [pathSep]).map slash).rdropWhile (· = pathSep) = (s.map slash).rdropWhile (· = pathSep)
  rw [List.map_append]
  exact List.rdropWhile_concat_pos _ _ _ (by decide)

/-- A directory is removed again only if there is nothing to remove, or nothing else. -/
theorem difference_iff (f directory : FileName) : (directory.add f).sub directory = f ↔ Removable f directory := by
  cases own : directory.filename with
  | nil =>
    refine iff_of_true ?_ (Or.inl own)
    have nowhere : f.filename.findIdx? (fun c => decide (c ∈ directory.filename)) = none := by
      rw [List.findIdx?_eq_none_iff, own]
      exact fun _ _ => rfl
    rw [FileName.add, if_pos own, FileName.sub, nowhere]
  | cons c rest =>
    have noBackslash : '\\' ∉ c :: rest := own ▸ directory.noBackslash
    have cut : ∀ tail, (directory.add f).filename = c :: tail → (directory.add f).sub directory = .ofString tail := by
      intro tail joined
      have first : (c :: tail).findIdx? (fun d => decide (d ∈ c :: rest)) = some 0 := by
        rw [List.findIdx?_cons, if_pos (decide_eq_true List.mem_cons_self)]
      rw [FileName.sub, own, joined, first]
      rfl
    have added : directory.add f = .ofString (c :: rest ++ pathSep :: f.filename) := by
      rw [FileName.add, own, if_neg (List.cons_ne_nil c rest)]
    by_cases nothing : f.filename = []
    · have joined : (directory.add f).filename = c :: rest := by
        rw [added, nothing, ofString_separator, ← own, ofString_filename]
      have normal : (FileName.ofString rest).filename = rest := by
        apply ofString_normal
        · exact fun member => noBackslash (List.mem_cons_of_mem c member)
        · intro nonempty
          have trailing := directory.noTrailing (by rw [own]; exact List.cons_ne_nil c rest)
          simp only [own, List.getLast_cons nonempty] at trailing
          exact trailing
      rw [cut rest joined]
      constructor
      · intro same
        have none_ : rest = [] := by rw [← normal, same, nothing]
        exact Or.inr ⟨nothing, by rw [own, none_]; rfl⟩
      · rintro (empty | ⟨-, one⟩)
        · rw [own] at empty
          cases empty
        · have none_ : rest = [] := by simpa [own] using one
          exact FileName.ext_filename (by rw [normal, none_, nothing])
    · have joined := filename_joined noBackslash nothing
      rw [← added, List.cons_append] at joined
      rw [cut _ joined]
      refine iff_of_false (fun same => ?_) ?_
      · have behind := filename_joined (fun member => noBackslash (List.mem_cons_of_mem c member)) nothing
        have length := congrArg List.length (behind.symm.trans (congrArg FileName.filename same))
        rw [List.length_append, List.length_cons] at length
        omega
      · rintro (empty | ⟨empty, -⟩)
        · rw [own] at empty
          cases empty
        · exact nothing empty

/-- Behind the last separator there is no dot if none is in the base. -/
theorem noDot_behind {b : Text} (ends : ∃ e, f.filename = e ++ pathSep :: b) (noDot : '.' ∉ b) :
    ¬∃ before after, f.filename = before ++ '.' :: after ∧ pathSep ∉ after := by
  rintro ⟨before, after, split, behind⟩
  obtain ⟨e, whole⟩ := ends
  rcases List.append_eq_append_iff.mp (whole.symm.trans split) with ⟨a, rfl, same⟩ | ⟨a, rfl, same⟩
  · cases a with
    | nil => exact absurd (List.cons.inj same).1 (by decide)
    | cons c a =>
      apply noDot
      rw [(List.cons.inj same).2]
      exact List.mem_append_right _ List.mem_cons_self
  · cases a with
    | nil => exact absurd (List.cons.inj same).1 (by decide)
    | cons c a =>
      apply behind
      rw [(List.cons.inj same).2]
      exact List.mem_append_right _ List.mem_cons_self

/-- The laws hold exactly where no directory hides the lack of an extension, and no directory has to be removed. -/
theorem laws_iff (f directory : FileName) (x : Text) (noDot : '.' ∉ x) (noSlash : '/' ∉ x) (noBackslash : '\\' ∉ x) :
    Laws f x directory ↔ DotBehind f ∧ (Relative f → Removable f directory) := by
  obtain ⟨p, b, whole, noSeparator, ends, path, base, start⟩ := split_path f
  have together : f.path ++ f.base = f.filename := by rw [path, base, whole]
  have behindPath : f.filename.drop f.start = b := by rw [whole, start, List.drop_left]
  have extended : ∀ {q : Text}, '\\' ∉ q → (FileName.ofString (q ++ '.' :: x)).ext = x ∧
      (FileName.ofString (q ++ '.' :: x)).dropExt = .ofString q := by
    intro q plain
    refine ofString_dotted ?_ noDot noSlash
    rw [List.mem_append, not_or]
    exact ⟨plain, noBackslash⟩
  rcases last_cases (fun c => decide (c = '.')) b with none_ | ⟨a, c, after, dotted, found, others⟩
  · have noDotInBase : '.' ∉ b := fun member => of_decide_eq_false (none_ _ member) rfl
    rcases last_cases (fun c => decide (c = '.')) p with none_ | ⟨d, c, after, dotted, found, others⟩
    · -- No dot at all.
      have noDots : '.' ∉ f.filename := by
        rw [whole, List.mem_append, not_or]
        exact ⟨fun member => of_decide_eq_false (none_ _ member) rfl, noDotInBase⟩
      obtain ⟨ext, dropExt, name, setExt⟩ := no_dot noDots
      obtain ⟨again, kept⟩ := extended f.noBackslash
      constructor
      · intro laws
        exact ⟨fun member => absurd member noDots, fun relative => (difference_iff f directory).mp (laws.difference relative)⟩
      · rintro ⟨-, removable⟩
        refine ⟨together, fun member => ?_, fun _ => ⟨ext, dropExt, ?_⟩, ?_, ?_,
          fun relative => (difference_iff f directory).mpr (removable relative)⟩
        · rw [base] at member
          exact absurd member noDotInBase
        · rw [name, behindPath, base]
        · rw [setExt, again]
        · rw [setExt, kept, dropExt, ofString_filename]
    · -- The last dot stands in a directory.
      obtain rfl := of_decide_eq_true found
      have split : f.filename = d ++ '.' :: (after ++ b) := by
        rw [whole, dotted, List.append_assoc, List.cons_append]
      have lastDot : '.' ∉ after ++ b := by
        rw [List.mem_append, not_or]
        exact ⟨fun member => of_decide_eq_false (others _ member) rfl, noDotInBase⟩
      refine iff_of_false (fun laws => ?_) fun both => ?_
      · obtain ⟨-, dropExt, -⟩ := laws.plain (by rwa [base])
        rw [(ext_last_dot split lastDot).2] at dropExt
        have shorter := length_ofString_le d
        rw [dropExt, split, List.length_append, List.length_cons] at shorter
        omega
      · refine noDot_behind ?_ noDotInBase (both.1 (split ▸ List.mem_append_right _ List.mem_cons_self))
        rcases ends with rfl | ⟨e, rfl⟩
        · simp at dotted
        · exact ⟨e, by rw [whole, ← List.append_cons]⟩
  · -- The last dot stands behind the last separator.
    obtain rfl := of_decide_eq_true found
    have lastDot : '.' ∉ after := fun member => of_decide_eq_false (others _ member) rfl
    have split : f.filename = (p ++ a) ++ '.' :: after := by rw [whole, dotted, List.append_assoc]
    obtain ⟨ext, dropExt⟩ := ext_last_dot split lastDot
    obtain ⟨name, setExt⟩ := name_last_dot split lastDot (by rw [start, List.length_append]; omega)
    rw [start, List.drop_left] at name
    have plain : '\\' ∉ p ++ a := by
      intro member
      apply f.noBackslash
      rw [split]
      exact List.mem_append_left _ member
    obtain ⟨again, kept⟩ := extended plain
    have behind : DotBehind f := by
      refine fun _ => ⟨p ++ a, after, split, fun member => noSeparator ?_⟩
      rw [dotted]
      exact List.mem_append_right _ (List.mem_cons_of_mem _ member)
    constructor
    · exact fun laws => ⟨behind, fun relative => (difference_iff f directory).mp (laws.difference relative)⟩
    · rintro ⟨-, removable⟩
      refine ⟨together, fun _ => ?_, fun missing => ?_, ?_, ?_,
        fun relative => (difference_iff f directory).mpr (removable relative)⟩
      · rw [base, name, ext, dotted]
      · rw [base, dotted] at missing
        exact absurd (List.mem_append_right _ List.mem_cons_self) missing
      · rw [setExt, again]
      · rw [setExt, kept, dropExt]

/-- A hidden file in the root, next to itself. -/
theorem laws_iff_hidden : Laws (.ofString ['/', '.', 'a']) ['b'] (.ofString []) :=
  (laws_iff (.ofString ['/', '.', 'a']) (.ofString []) ['b'] (by decide) (by decide) (by decide)).mpr
    ⟨fun _ => ⟨['/'], ['a'], by decide, by decide⟩, fun _ => Or.inl (by decide)⟩

/-- A dot in the name of a directory is taken for the start of an extension, and one character of a directory is removed
where it should be all of it. -/
theorem directory_dot : ¬∀ f directory : FileName, ∀ x : Text, '.' ∉ x → '/' ∉ x → '\\' ∉ x → Laws f x directory := by
  intro laws
  have plain := (laws (.ofString ['d', '.', 'd', '/', 'a']) (.ofString []) ['b'] (by decide) (by decide) (by decide)).plain
    (by decide)
  exact absurd plain.1 (by decide)

/-- The difference of `dd/a` and `dd` is `d/a`. -/
example : ((FileName.ofString ['d', 'd']).add (.ofString ['a'])).sub (.ofString ['d', 'd']) = .ofString ['d', '/', 'a'] :=
  FileName.ext_filename (by decide)

end Ospray.Files
