import Mathlib.Data.List.Basic
import Mathlib.Data.List.Flatten
import Ospray.Library.Literals

/-!
# Copies between buffers

A copy overwrites a range of a buffer and is undefined past its end. Copies that
are made at the same time are undefined also when two of them share an entry.
Pieces that are copied one behind the other fill a buffer with their
concatenation, and a buffer of pieces of one size is cut into them again.
-/

namespace Library.Buffers

universe u
variable {β : Type u}

/-- So many entries from an offset on. -/
def read (buffer : List β) (offset count : Nat) : List β := (buffer.drop offset).take count

/-- Overwriting the entries from an offset on. -/
def write (buffer : List β) (offset : Nat) (data : List β) : Option (List β) :=
  if offset + data.length ≤ buffer.length then
    some (buffer.take offset ++ data ++ buffer.drop (offset + data.length))
  else none

variable {buffer written : List β} {offset place count : Nat} {data : List β}

theorem write_isSome : (write buffer offset data).isSome ↔ offset + data.length ≤ buffer.length := by
  unfold write
  split
  · next fits => exact iff_of_true rfl fits
  · next short => exact iff_of_false Bool.false_ne_true short

/-- What a write leaves at an index: the data in its range, the old entry elsewhere. -/
theorem getElem?_write (defined : write buffer offset data = some written) (index : Nat) :
    written[index]? =
      if offset ≤ index ∧ index < offset + data.length then data[index - offset]?
      else buffer[index]? := by
  unfold write at defined
  split at defined
  · next fits =>
    obtain rfl := Option.some.inj defined
    have front : (buffer.take offset).length = offset := by
      rw [List.length_take]
      omega
    rw [List.append_assoc]
    by_cases before : index < offset
    · rw [List.getElem?_append_left (by omega), List.getElem?_take_of_lt before,
        if_neg (by omega)]
    · rw [List.getElem?_append_right (by omega), front]
      by_cases inside : index < offset + data.length
      · rw [List.getElem?_append_left (by omega), if_pos ⟨by omega, inside⟩]
      · rw [List.getElem?_append_right (by omega), List.getElem?_drop, if_neg (by omega)]
        congr 1
        omega
  · cases defined

theorem length_write (defined : write buffer offset data = some written) :
    written.length = buffer.length := by
  unfold write at defined
  split at defined
  · next fits =>
    obtain rfl := Option.some.inj defined
    simp only [List.length_append, List.length_take, List.length_drop]
    omega
  · cases defined

theorem getElem?_read (index : Nat) :
    (read buffer offset count)[index]? =
      if index < count then buffer[offset + index]? else none := by
  unfold read
  split
  · next inside => rw [List.getElem?_take_of_lt inside, List.getElem?_drop]
  · next outside =>
    rw [List.getElem?_eq_none]
    rw [List.length_take]
    omega

theorem length_read (inside : offset + count ≤ buffer.length) :
    (read buffer offset count).length = count := by
  rw [read, List.length_take, List.length_drop]
  omega

theorem read_write_self (defined : write buffer offset data = some written) :
    read written offset data.length = data := by
  refine List.ext_getElem? fun index => ?_
  rw [getElem?_read, getElem?_write defined]
  by_cases inside : index < data.length
  · rw [if_pos inside, if_pos ⟨by omega, by omega⟩, Nat.add_sub_cancel_left]
  · rw [if_neg inside, List.getElem?_eq_none (by omega)]

theorem write_nil (inside : offset ≤ buffer.length) : write buffer offset [] = some buffer := by
  rw [write, if_pos (by simpa using inside), List.append_nil, List.length_nil, Nat.add_zero,
    List.take_append_drop]

/-- Two writes one behind the other are one write. -/
theorem write_append {first second : List β} {middle : List β}
    (front : write buffer offset first = some middle)
    (back : write middle (offset + first.length) second = some written) :
    write buffer offset (first ++ second) = some written := by
  have inside : offset + (first ++ second).length ≤ buffer.length := by
    have room := write_isSome.mp (Option.isSome_of_eq_some back)
    rw [length_write front] at room
    rw [List.length_append]
    omega
  obtain ⟨whole, defined⟩ := Option.isSome_iff_exists.mp (write_isSome.mpr inside)
  rw [defined]
  refine congrArg some (List.ext_getElem? fun index => ?_)
  rw [getElem?_write defined, getElem?_write back, getElem?_write front, List.length_append]
  by_cases before : index < offset
  · rw [if_neg (by omega), if_neg (by omega), if_neg (by omega)]
  · by_cases early : index < offset + first.length
    · rw [if_pos (by omega), if_neg (by omega), if_pos (by omega),
        List.getElem?_append_left (by omega)]
    · rw [List.getElem?_append_right (by omega), Nat.sub_sub, if_neg (by omega : ¬ (offset ≤ index ∧
        index < offset + first.length))]
      congr 1
      exact propext ⟨fun inside => ⟨by omega, by omega⟩, fun inside => ⟨by omega, by omega⟩⟩

theorem read_write_apart (defined : write buffer offset data = some written)
    (apart : place + count ≤ offset ∨ offset + data.length ≤ place) :
    read written place count = read buffer place count := by
  refine List.ext_getElem? fun index => ?_
  rw [getElem?_read, getElem?_read, getElem?_write defined]
  split
  · rw [if_neg (by omega)]
  · rfl

theorem read_add (first second : Nat) :
    read buffer offset (first + second) =
      read buffer offset first ++ read buffer (offset + first) second := by
  rw [read, read, read, List.take_add, List.drop_drop]

theorem read_all : read buffer 0 buffer.length = buffer := by
  rw [read, List.drop_zero, List.take_length]

theorem read_append_right (front rest : List β) :
    read (front ++ rest) (front.length + offset) count = read rest offset count := by
  rw [read, read, ← List.drop_drop, List.drop_left]

theorem read_append_left (front rest : List β) : read (front ++ rest) 0 front.length = front := by
  rw [read, List.drop_zero, List.take_left]

theorem read_middle (front middle rest : List β) :
    read (front ++ (middle ++ rest)) front.length middle.length = middle := by
  rw [read, List.drop_left, List.take_left]

theorem read_read {inner length : Nat} (inside : inner + length ≤ count) :
    read (read buffer offset count) inner length = read buffer (offset + inner) length := by
  refine List.ext_getElem? fun index => ?_
  rw [getElem?_read, getElem?_read, getElem?_read]
  split
  · rw [if_pos (by omega), Nat.add_assoc]
  · rfl

/-! ## Pieces of one size -/

section Pieces

variable {ι : Type u} {piece : ι → List β} {size : Nat}

theorem length_pieces (pieces : List ι) (sized : ∀ entry ∈ pieces, (piece entry).length = size) :
    (pieces.flatMap piece).length = pieces.length * size := by
  induction pieces with
  | nil => simp
  | cons entry rest inductionHypothesis =>
    have own := sized entry List.mem_cons_self
    have others := inductionHypothesis fun other member =>
      sized other (List.mem_cons_of_mem entry member)
    rw [List.flatMap_cons, List.length_append, own, others, List.length_cons, Nat.succ_mul,
      Nat.add_comm]

theorem places_apart {first second : Nat} (apart : first ≠ second) (size : Nat) :
    first * size + size ≤ second * size ∨ second * size + size ≤ first * size := by
  rcases Nat.lt_or_gt_of_ne apart with before | behind
  · rw [← Nat.succ_mul]
    exact Or.inl (Nat.mul_le_mul_right size before)
  · rw [← Nat.succ_mul second]
    exact Or.inr (Nat.mul_le_mul_right size behind)

theorem read_piece (pieces : List ι) (sized : ∀ entry ∈ pieces, (piece entry).length = size)
    {position : Nat} {entry : ι} (placed : pieces[position]? = some entry) :
    read (pieces.flatMap piece) (position * size) size = piece entry := by
  induction pieces generalizing position with
  | nil => simp at placed
  | cons head rest inductionHypothesis =>
    have own := sized head List.mem_cons_self
    rw [List.flatMap_cons]
    cases position with
    | zero =>
      obtain rfl : head = entry := by simpa using placed
      rw [Nat.zero_mul, ← own, read_append_left]
    | succ position =>
      have later : rest[position]? = some entry := by simpa using placed
      rw [Nat.succ_mul, Nat.add_comm, ← own, read_append_right, own]
      exact inductionHypothesis
        (fun other member => sized other (List.mem_cons_of_mem head member)) later

/-- Pieces that stand at the multiples of their size are a buffer of pieces. -/
theorem read_pieces (pieces : List ι)
    (stands : ∀ position entry, pieces[position]? = some entry →
      read buffer (offset + position * size) size = piece entry) :
    read buffer offset (pieces.length * size) = pieces.flatMap piece := by
  induction pieces generalizing offset with
  | nil => simp [read]
  | cons head rest inductionHypothesis =>
    have own := stands 0 head rfl
    rw [Nat.zero_mul, Nat.add_zero] at own
    have others : read buffer (offset + size) (rest.length * size) = rest.flatMap piece := by
      refine inductionHypothesis fun position entry placed => ?_
      have later := stands (position + 1) entry (by simpa using placed)
      rw [Nat.succ_mul, Nat.add_comm (position * size), ← Nat.add_assoc] at later
      exact later
    rw [List.length_cons, Nat.succ_mul, Nat.add_comm, read_add, own, others, List.flatMap_cons]

end Pieces

/-! ## Copies at the same time -/

/-- A copy: where it starts, and what it writes. -/
abbrev Copy (β : Type u) := Int × List β

/-- One copy, which is undefined in front of the buffer too. -/
def copy (buffer : List β) (entry : Copy β) : Option (List β) :=
  if 0 ≤ entry.1 then write buffer entry.1.toNat entry.2 else none

/-- Copies that share no entry. -/
def Apart (first second : Copy β) : Prop :=
  first.1 + first.2.length ≤ second.1 ∨ second.1 + second.2.length ≤ first.1

instance (first second : Copy β) : Decidable (Apart first second) :=
  inferInstanceAs (Decidable (_ ∨ _))

/-- Whether a copy writes anything. -/
def Copy.writes (entry : Copy β) : Bool := !entry.2.isEmpty

/-- Copies made at the same time. Those without data do nothing. -/
def copyAll (copies : List (Copy β)) (buffer : List β) : Option (List β) :=
  if (copies.filter Copy.writes).Pairwise Apart then
    (copies.filter Copy.writes).foldlM copy buffer
  else none

/-- Copies one behind the other. -/
def placed : Nat → List (List β) → List (Copy β)
  | _, [] => []
  | start, piece :: rest => ((start : Int), piece) :: placed (start + piece.length) rest

theorem start_le_of_placed {start : Nat} {pieces : List (List β)} {entry : Copy β}
    (member : entry ∈ placed start pieces) : (start : Int) ≤ entry.1 := by
  induction pieces generalizing start with
  | nil => simp [placed] at member
  | cons piece rest inductionHypothesis =>
    rcases List.mem_cons.mp member with rfl | later
    · exact Int.le_refl _
    · have behind := inductionHypothesis later
      omega

theorem placed_apart (start : Nat) (pieces : List (List β)) :
    (placed start pieces).Pairwise Apart := by
  induction pieces generalizing start with
  | nil => exact List.Pairwise.nil
  | cons piece rest inductionHypothesis =>
    refine List.pairwise_cons.mpr ⟨?_, inductionHypothesis _⟩
    intro entry member
    have behind := start_le_of_placed member
    exact Or.inl (by simp only; omega)

/-- Placed copies fill the buffer from the start on with the concatenation. The empty
ones may be left out. -/
theorem foldlM_placed (front rest : List β) (pieces : List (List β))
    (fits : rest.length = pieces.flatten.length) :
    ((placed front.length pieces).filter Copy.writes).foldlM copy (front ++ rest) =
      some (front ++ pieces.flatten) := by
  induction pieces generalizing front rest with
  | nil =>
    obtain rfl : rest = [] := List.length_eq_zero_iff.mp fits
    rfl
  | cons piece pieces inductionHypothesis =>
    rw [List.flatten_cons, List.length_append] at fits
    have next : ((placed (front ++ piece).length pieces).filter Copy.writes).foldlM copy
        ((front ++ piece) ++ rest.drop piece.length) = some (front ++ (piece ++ pieces.flatten)) := by
      rw [← List.append_assoc]
      refine inductionHypothesis (front ++ piece) (rest.drop piece.length) ?_
      rw [List.length_drop]
      omega
    rw [List.length_append] at next
    cases piece with
    | nil => simpa [placed, Copy.writes] using next
    | cons head tail =>
      have inside : front.length + (head :: tail).length ≤ (front ++ rest).length := by
        rw [List.length_append]
        omega
      have first : copy (front ++ rest) ((front.length : Int), head :: tail) =
          some ((front ++ head :: tail) ++ rest.drop (head :: tail).length) := by
        rw [copy, if_pos (by simp only; omega), Int.toNat_natCast, write, if_pos inside,
          List.take_left, ← List.drop_drop, List.drop_left]
      rw [placed, List.filter_cons_of_pos (by rfl), List.foldlM_cons, first]
      exact next

theorem copyAll_placed (pieces : List (List β)) (fits : buffer.length = pieces.flatten.length) :
    copyAll (placed 0 pieces) buffer = some pieces.flatten := by
  rw [copyAll, if_pos ((placed_apart 0 pieces).filter Copy.writes)]
  exact foldlM_placed [] buffer pieces fits

/-- Copies that are defined start inside the buffer and share no entry. -/
theorem copyAll_defined {copies : List (Copy β)} (defined : copyAll copies buffer = some written) :
    (copies.filter Copy.writes).Pairwise Apart ∧
      ∀ entry ∈ copies, entry.2 ≠ [] → 0 ≤ entry.1 := by
  unfold copyAll at defined
  split at defined
  · next apart =>
    refine ⟨apart, ?_⟩
    intro entry member some_
    have kept : entry ∈ copies.filter Copy.writes :=
      List.mem_filter.mpr ⟨member, by simpa [Copy.writes] using some_⟩
    clear member apart
    generalize copies.filter Copy.writes = copies at defined kept
    induction copies generalizing buffer with
    | nil => simp at kept
    | cons head rest inductionHypothesis =>
      rw [List.foldlM_cons] at defined
      obtain ⟨next, moved, onwards⟩ := Option.bind_eq_some_iff.mp defined
      rcases List.mem_cons.mp kept with rfl | later
      · unfold copy at moved
        split at moved
        · assumption
        · cases moved
      · exact inductionHypothesis onwards later
  · cases defined

theorem copyAll_congr {first second : List (Copy β)}
    (same : first.filter Copy.writes = second.filter Copy.writes) :
    copyAll first buffer = copyAll second buffer := by
  rw [copyAll, copyAll, same]

/-! ## Pieces of any size -/

section Starts

variable (piece : Nat → List β)

/-- Where a piece starts when the pieces stand one behind the other. -/
def startOf (position : Nat) : Nat := ((List.range position).flatMap piece).length

@[simp] theorem startOf_zero : startOf piece 0 = 0 := rfl

theorem startOf_succ (position : Nat) :
    startOf piece (position + 1) = startOf piece position + (piece position).length := by
  rw [startOf, List.range_succ, List.flatMap_append, List.length_append, List.flatMap_singleton]
  rfl

theorem startOf_eq (position : Nat) :
    startOf piece position =
      ((List.range position).map fun earlier => (piece earlier).length).sum := by
  rw [startOf, List.length_flatMap]

theorem exists_piece {index position : Nat} (inside : index < startOf piece position) :
    ∃ own < position, startOf piece own ≤ index ∧ index < startOf piece own + (piece own).length := by
  induction position with
  | zero => exact absurd inside (Nat.not_lt_zero index)
  | succ position inductionHypothesis =>
    by_cases before : index < startOf piece position
    · obtain ⟨own, early, covers⟩ := inductionHypothesis before
      exact ⟨own, Nat.lt_succ_of_lt early, covers⟩
    · rw [startOf_succ] at inside
      exact ⟨position, Nat.lt_succ_self position, Nat.le_of_not_lt before, inside⟩

theorem read_startOf {position count : Nat} (inside : position < count) :
    read ((List.range count).flatMap piece) (startOf piece position) (piece position).length =
      piece position := by
  obtain ⟨rest, rfl⟩ := Nat.exists_eq_add_of_lt inside
  rw [Nat.add_assoc, List.range_add, List.flatMap_append, List.range_succ_eq_map,
    List.map_cons, List.flatMap_cons]
  exact read_middle _ _ _

/-- Copies to the starts of the pieces are placed one behind the other. -/
theorem placed_range (count : Nat) :
    placed 0 ((List.range count).map piece) =
      (List.range count).map fun position => ((startOf piece position : Int), piece position) := by
  suffices general : ∀ start (pieces : List (List β)) (last : List β),
      placed start (pieces ++ [last]) =
        placed start pieces ++ [(((start + pieces.flatten.length : Nat) : Int), last)] by
    induction count with
    | zero => rfl
    | succ count inductionHypothesis =>
      rw [List.range_succ, List.map_append, List.map_append, List.map_singleton,
        List.map_singleton, general, inductionHypothesis, Nat.zero_add, ← List.flatMap_def]
      rfl
  intro start pieces last
  induction pieces generalizing start with
  | nil => rfl
  | cons head rest inductionHypothesis =>
    rw [List.cons_append, placed, inductionHypothesis, placed, List.cons_append, List.flatten_cons,
      List.length_append, Nat.add_assoc]

theorem copyAll_startOf {count : Nat} (fits : buffer.length = startOf piece count) :
    copyAll ((List.range count).map fun position => ((startOf piece position : Int), piece position))
      buffer = some ((List.range count).flatMap piece) := by
  rw [← placed_range, List.flatMap_def]
  refine copyAll_placed _ ?_
  rw [fits, startOf, List.flatMap_def]

variable {piece} {count : Nat} {bound : Int} {offsets : Nat → Int}

/-- Offsets that stay below a bound, and are right where the pieces start below it, are
right for all pieces that write anything: a piece that starts beyond would meet an
earlier one. -/
theorem copyAll_bounded (below : ∀ position < count, offsets position < bound)
    (right : ∀ position < count, startOf piece position < bound →
      offsets position = startOf piece position)
    (defined : copyAll ((List.range count).map fun position => (offsets position, piece position))
      buffer = some written) :
    ∀ position < count, piece position ≠ [] → (startOf piece position : Int) < bound := by
  obtain ⟨apart, natural⟩ := copyAll_defined defined
  rw [List.pairwise_filter, List.pairwise_map] at apart
  have separate : ∀ first second, first < second → second < count → piece first ≠ [] →
      piece second ≠ [] → Apart (offsets first, piece first) (offsets second, piece second) := by
    intro first second ordered inside some_ others
    have pair := List.pairwise_iff_getElem.mp apart first second
      (by rw [List.length_range]; omega) (by rw [List.length_range]; exact inside) ordered
    simp only [List.getElem_range] at pair
    exact pair (by simpa [Copy.writes] using some_) (by simpa [Copy.writes] using others)
  intro position
  induction position using Nat.strongRecOn with
  | ind position inductionHypothesis =>
    intro inside some_
    by_contra beyond
    have small := below position inside
    have front : 0 ≤ offsets position :=
      natural _ (List.mem_map.mpr ⟨position, List.mem_range.mpr inside, rfl⟩) some_
    have nonempty := List.length_pos_of_ne_nil some_
    obtain ⟨own, early, starts, ends⟩ :=
      exists_piece piece (show (offsets position).toNat < startOf piece position by omega)
    have covers : piece own ≠ [] := by
      intro empty
      rw [empty, List.length_nil] at ends
      omega
    have placedRight := right own (by omega) (inductionHypothesis own early (by omega) covers)
    rcases separate own position early inside covers some_ with before | behind
    · simp only at before
      omega
    · simp only at behind
      omega

/-- With right offsets for the pieces that write anything, the copies make up the
buffer. -/
theorem copyAll_right (fits : buffer.length = startOf piece count)
    (right : ∀ position < count, piece position ≠ [] →
      offsets position = startOf piece position) :
    copyAll ((List.range count).map fun position => (offsets position, piece position)) buffer =
      some ((List.range count).flatMap piece) := by
  rw [← copyAll_startOf piece fits]
  refine copyAll_congr ?_
  rw [List.filter_map, List.filter_map]
  refine List.map_congr_left ?_
  intro position kept
  obtain ⟨inside, some_⟩ := List.mem_filter.mp kept
  rw [right position (List.mem_range.mp inside) (by simpa [Copy.writes] using some_)]

end Starts

end Library.Buffers
