import Mathlib.Analysis.Real.Sqrt
import Mathlib.Tactic.LinearCombination
import Mathlib.Tactic.Module
import Ospray.Geometry.Rays
import Ospray.Library.Chunks

/-!
# Stream lines as curves

With radii of their own, or when they are to be smooth, stream lines become Bezier curves, one for
each link, with four control points. Links that continue one another share a control point. At its
ends a line gets a cap.
-/

namespace Ospray.Geometry

/-- A control point: a position and a radius. -/
structure CurveVertex (K : Type) where
  position : Vec3 K
  radius : K

/-- The parameters of stream lines: the vertices, their fourth components if they have four, and the links. -/
structure StreamLinesParams (K : Type) where
  globalRadius : K
  smooth : Bool
  vertex : Nat → Vec3 K
  fourth : Option (Nat → K)
  radiusData : Option (Nat → K)
  index : Nat → Nat
  numSegments : Nat

/-- What is handed over: control points, and where the curve of a link starts. -/
structure Curves (K : Type) where
  vertexCurve : List (CurveVertex K)
  indexCurve : List Nat

/-- The state of the conversion. -/
structure CurveState (K : Type) extends Curves K where
  middleSegment : Bool
  tangent : Vec3 K

namespace StreamLinesParams

section Conversion

variable {K : Type} [Field K] (self : StreamLinesParams K)

omit [Field K] in
/-- The radius at a vertex: `vertex.radius`, or the fourth component, or the radius for all. -/
def radius (i : Nat) : K :=
  match self.radiusData, self.fourth with
  | some radius, _ => radius i
  | none, some fourth => fourth i
  | none, none => self.globalRadius

omit [Field K] in
/-- Curves are used for smooth lines, and for radii that differ. -/
def useCurve : Bool := self.smooth || self.fourth.isSome || self.radiusData.isSome

/-- `lerp` -/
def lerp {V : Type} [Add V] [SMul K V] (factor : K) (a b : V) : V := (1 - factor) • a + factor • b

/-- `length` -/
def length (sqrt : K → K) (v : Vec3 K) : K := sqrt (dot v v)

/-- The control points at the start of a link. -/
def opening (sqrt : K → K) (state : CurveState K) (i : Nat) : List (CurveVertex K) :=
  let idx := self.index i
  let start := self.vertex idx
  let stop := self.vertex (idx + 1)
  let lengthSegment := length sqrt (start - stop)
  let startRadius := self.radius idx
  let endRadius := self.radius (idx + 1)
  if state.middleSegment then
    [{ position := start, radius := startRadius },
      { position := start + state.tangent, radius := lerp (1 / 3 : K) startRadius endRadius }]
  else -- start new curve
    let cap := lerp (1 + startRadius / lengthSegment) stop start
    [{ position := cap, radius := 0 }, { position := start, radius := startRadius }]

/-- A pass of the loop over the links. -/
def link (sqrt : K → K) (state : CurveState K) (i : Nat) : CurveState K :=
  let idx := self.index i
  let start := self.vertex idx
  let stop := self.vertex (idx + 1)
  let lengthSegment := length sqrt (start - stop)
  let startRadius := self.radius idx
  let endRadius := self.radius (idx + 1)
  let indexCurve := state.indexCurve ++ [state.vertexCurve.length]
  let vertexCurve := state.vertexCurve ++ self.opening sqrt state i
  if i + 1 < self.numSegments ∧ self.index (i + 1) = idx + 1 then
    let next := self.vertex (idx + 2)
    let delta := (1 / 3 : K) • (next - start)
    let b := length sqrt (next - stop)
    let r := lengthSegment / (lengthSegment + b)
    { vertexCurve := vertexCurve ++
        [{ position := stop - r • delta, radius := lerp (2 / 3 : K) startRadius endRadius }]
      indexCurve := indexCurve
      middleSegment := true
      tangent := (1 - r) • delta }
  else -- end curve
    let cap := lerp (1 + endRadius / lengthSegment) start stop
    { vertexCurve := vertexCurve ++ [{ position := stop, radius := endRadius }, { position := cap, radius := 0 }]
      indexCurve := indexCurve
      middleSegment := false
      tangent := state.tangent }

/-- The loop over the links. -/
def run (sqrt : K → K) (n : Nat) : CurveState K :=
  (List.range n).foldl (self.link sqrt) { vertexCurve := [], indexCurve := [], middleSegment := false, tangent := 0 }

/-- The curves of `StreamLines::finalize`, if it uses curves. -/
def finalize (sqrt : K → K) : Option (Curves K) :=
  if self.useCurve then some (self.run sqrt self.numSegments).toCurves else none

end Conversion

/-! ## The chunks of the links -/

section Chunks

variable {K : Type} [Field K] (self : StreamLinesParams K) (sqrt : K → K) {i n : Nat}

omit [Field K] in
/-- A link continues the one before it. -/
def Continues : Nat → Prop
  | 0 => False
  | i + 1 => self.index (i + 1) = self.index i + 1

instance : DecidablePred self.Continues
  | 0 => instDecidableFalse
  | i + 1 => inferInstanceAs (Decidable (self.index (i + 1) = self.index i + 1))

/-- A third of the way over two links. -/
def delta (i : Nat) : Vec3 K := (1 / 3 : K) • (self.vertex (self.index i + 2) - self.vertex (self.index i))

/-- The share of the first one of two links. -/
def share (i : Nat) : K :=
  let lengthSegment := length sqrt (self.vertex (self.index i) - self.vertex (self.index i + 1))
  lengthSegment / (lengthSegment + length sqrt (self.vertex (self.index i + 2) - self.vertex (self.index i + 1)))

/-- The tangent at the start of a link that continues the one before it. -/
def tangentInto : Nat → Vec3 K
  | 0 => 0
  | i + 1 => (1 - self.share sqrt i) • self.delta i

/-- The first two control points of a link. -/
def opened (i : Nat) : List (CurveVertex K) :=
  let idx := self.index i
  let start := self.vertex idx
  let stop := self.vertex (idx + 1)
  if self.Continues i then
    [{ position := start, radius := self.radius idx },
      { position := start + self.tangentInto sqrt i,
        radius := lerp (1 / 3 : K) (self.radius idx) (self.radius (idx + 1)) }]
  else
    [{ position := lerp (1 + self.radius idx / length sqrt (start - stop)) stop start, radius := 0 },
      { position := start, radius := self.radius idx }]

/-- The control points of a link that come after its first two. -/
def closed (i : Nat) : List (CurveVertex K) :=
  let idx := self.index i
  let start := self.vertex idx
  let stop := self.vertex (idx + 1)
  if i + 1 < self.numSegments ∧ self.Continues (i + 1) then
    [{ position := stop - self.share sqrt i • self.delta i,
       radius := lerp (2 / 3 : K) (self.radius idx) (self.radius (idx + 1)) }]
  else
    [{ position := stop, radius := self.radius (idx + 1) },
      { position := lerp (1 + self.radius (idx + 1) / length sqrt (start - stop)) start stop, radius := 0 }]

/-- What a pass appends. -/
def chunk (i : Nat) : List (CurveVertex K) := self.opened sqrt i ++ self.closed sqrt i

/-- The state before a link: all chunks before it, and what it needs to know of the link before it. -/
structure Reached (lines : StreamLinesParams K) (sqrt : K → K) (i : Nat) (state : CurveState K) : Prop where
  vertexCurve : state.vertexCurve = Library.Chunks.emitted (lines.chunk sqrt) i
  indexCurve : state.indexCurve = (List.range i).map (Library.Chunks.start (lines.chunk sqrt))
  middleSegment : i < lines.numSegments → (state.middleSegment = true ↔ lines.Continues i)
  tangent : i < lines.numSegments → lines.Continues i → state.tangent = lines.tangentInto sqrt i

theorem opening_eq {state : CurveState K} (reached : self.Reached sqrt i state) (more : i < self.numSegments) :
    self.opening sqrt state i = self.opened sqrt i := by
  rw [opening, opened]
  by_cases continues : self.Continues i
  · rw [if_pos ((reached.middleSegment more).mpr continues), if_pos continues, reached.tangent more continues]
  · rw [if_neg (mt (reached.middleSegment more).mp continues), if_neg continues]

theorem link_reached {state : CurveState K} (reached : self.Reached sqrt i state) (more : i < self.numSegments) :
    self.Reached sqrt (i + 1) (self.link sqrt state i) := by
  have indexCurve : state.indexCurve ++ [state.vertexCurve.length] =
      (List.range (i + 1)).map (Library.Chunks.start (self.chunk sqrt)) := by
    rw [List.range_succ, List.map_append, reached.indexCurve, reached.vertexCurve]
    rfl
  have vertexCurve := Library.Chunks.emitted_succ (self.chunk sqrt) i
  rw [chunk, closed, ← self.opening_eq sqrt reached more, ← reached.vertexCurve, ← List.append_assoc] at vertexCurve
  by_cases continued : i + 1 < self.numSegments ∧ self.Continues (i + 1)
  · rw [if_pos continued] at vertexCurve
    have follows : i + 1 < self.numSegments ∧ self.index (i + 1) = self.index i + 1 := continued
    rw [link, if_pos follows]
    exact ⟨vertexCurve.symm, indexCurve, fun _ => iff_of_true rfl continued.2, fun _ _ => rfl⟩
  · rw [if_neg continued] at vertexCurve
    have other : ¬(i + 1 < self.numSegments ∧ self.index (i + 1) = self.index i + 1) := continued
    rw [link, if_neg other]
    refine ⟨vertexCurve.symm, indexCurve, fun next => ?_, fun next continues => ?_⟩
    · exact iff_of_false Bool.false_ne_true fun continues => continued ⟨next, continues⟩
    · exact absurd ⟨next, continues⟩ continued

theorem run_reached (range : n ≤ self.numSegments) : self.Reached sqrt n (self.run sqrt n) := by
  induction n with
  | zero => exact ⟨rfl, rfl, fun _ => iff_of_false Bool.false_ne_true not_false, fun _ continues => continues.elim⟩
  | succ n ih =>
    rw [run, List.range_succ, List.foldl_append]
    exact self.link_reached sqrt (ih (Nat.le_of_succ_le range)) range

theorem getElem?_run {k : Nat} (link : i < self.numSegments) (within : k < (self.chunk sqrt i).length) :
    (self.run sqrt self.numSegments).vertexCurve[Library.Chunks.start (self.chunk sqrt) i + k]? =
      (self.chunk sqrt i)[k]? := by
  rw [(self.run_reached sqrt le_rfl).vertexCurve]
  exact Library.Chunks.getElem?_emitted _ link within

theorem getElem?_indexCurve (link : i < self.numSegments) :
    (self.run sqrt self.numSegments).indexCurve[i]? = some (Library.Chunks.start (self.chunk sqrt) i) := by
  rw [(self.run_reached sqrt le_rfl).indexCurve, List.getElem?_map, List.getElem?_range link, Option.map_some]

theorem length_opened (i : Nat) : (self.opened sqrt i).length = 2 := by
  rw [opened]
  split <;> rfl

theorem start_succ_of_continued (continued : i + 1 < self.numSegments ∧ self.Continues (i + 1)) :
    Library.Chunks.start (self.chunk sqrt) (i + 1) = Library.Chunks.start (self.chunk sqrt) i + 3 := by
  rw [Library.Chunks.start_succ, chunk, List.length_append, length_opened, closed, if_pos continued]
  rfl

theorem start_add_three_lt (link : i < self.numSegments) :
    Library.Chunks.start (self.chunk sqrt) i + 3 < (self.run sqrt self.numSegments).vertexCurve.length := by
  have size : (self.run sqrt self.numSegments).vertexCurve.length =
      Library.Chunks.start (self.chunk sqrt) self.numSegments :=
    congrArg List.length (self.run_reached sqrt le_rfl).vertexCurve
  rw [size]
  by_cases continued : i + 1 < self.numSegments ∧ self.Continues (i + 1)
  · have next := Library.Chunks.start_add_length_le (self.chunk sqrt) continued.1
    rw [self.start_succ_of_continued sqrt continued, chunk, List.length_append, length_opened] at next
    omega
  · have last := Library.Chunks.start_add_length_le (self.chunk sqrt) link
    have four : (self.chunk sqrt i).length = 4 := by
      rw [chunk, List.length_append, length_opened, closed, if_neg continued]
      rfl
    omega

end Chunks

/-! ## Complete and smooth curves -/

/-- A unit vector from one point to another. -/
def Points (v start stop : Vec3 ℝ) : Prop := dot v v = 1 ∧ ∃ distance : ℝ, 0 < distance ∧ stop - start = distance • v

/-- A line beyond its end, by the share of its length that the radius is. -/
theorem lerp_beyond {start stop : Vec3 ℝ} (apart : start ≠ stop) (radius : ℝ) :
    ∃ v, Points v start stop ∧
      lerp (1 + radius / length Real.sqrt (start - stop)) stop start = start - radius • v ∧
      lerp (1 + radius / length Real.sqrt (start - stop)) start stop = stop + radius • v := by
  have positive : 0 < length Real.sqrt (start - stop) := Real.sqrt_pos.mpr (dot_self_pos (sub_ne_zero.mpr apart))
  have square : length Real.sqrt (start - stop) * length Real.sqrt (start - stop) = dot (start - stop) (start - stop) :=
    Real.mul_self_sqrt (dot_self_nonneg _)
  set distance := length Real.sqrt (start - stop)
  have whole : distance * (1 / distance) = 1 := mul_one_div_cancel positive.ne'
  refine ⟨(1 / distance) • (stop - start), ⟨?_, distance, positive, ?_⟩, ?_, ?_⟩
  · have unit : 1 / distance * (1 / distance) * (distance * distance) = 1 := by
      rw [mul_mul_mul_comm, one_div_mul_cancel positive.ne', mul_one]
    rw [square] at unit
    simp only [dot, Pi.sub_apply, Pi.smul_apply, smul_eq_mul] at unit ⊢
    linear_combination unit
  · rw [smul_smul, whole, one_smul]
  · rw [lerp, smul_smul, mul_one_div]
    module
  · rw [lerp, smul_smul, mul_one_div]
    module

variable (self : StreamLinesParams ℝ)

/-- The control points of a link, from a place on. -/
structure LinkCurve (curves : Curves ℝ) (i c : Nat) : Prop where
  inside : c + 3 < curves.vertexCurve.length
  starts : if self.Continues i then
      curves.vertexCurve[c]? = some ⟨self.vertex (self.index i), self.radius (self.index i)⟩
    else ∃ v, Points v (self.vertex (self.index i)) (self.vertex (self.index i + 1)) ∧
      curves.vertexCurve[c]? = some ⟨self.vertex (self.index i) - self.radius (self.index i) • v, 0⟩ ∧
      curves.vertexCurve[c + 1]? = some ⟨self.vertex (self.index i), self.radius (self.index i)⟩
  ends : if i + 1 < self.numSegments ∧ self.Continues (i + 1) then
      curves.vertexCurve[c + 3]? = some ⟨self.vertex (self.index i + 1), self.radius (self.index i + 1)⟩
    else ∃ v, Points v (self.vertex (self.index i)) (self.vertex (self.index i + 1)) ∧
      curves.vertexCurve[c + 2]? = some ⟨self.vertex (self.index i + 1), self.radius (self.index i + 1)⟩ ∧
      curves.vertexCurve[c + 3]? = some ⟨self.vertex (self.index i + 1) + self.radius (self.index i + 1) • v, 0⟩

/-- Where the curve of a link starts. -/
noncomputable def place (i : Nat) : Nat := Library.Chunks.start (self.chunk Real.sqrt) i

variable {i : Nat}

theorem getElem?_opened (link : i < self.numSegments) {k : Nat} (two : k < 2) :
    (self.run Real.sqrt self.numSegments).vertexCurve[self.place i + k]? = (self.opened Real.sqrt i)[k]? := by
  have short : k < (self.opened Real.sqrt i).length := two.trans_eq (self.length_opened Real.sqrt i).symm
  rw [place, self.getElem?_run Real.sqrt link, chunk, List.getElem?_append_left short]
  rw [chunk, List.length_append]
  exact short.trans_le (Nat.le_add_right _ _)

theorem getElem?_closed (link : i < self.numSegments) {k : Nat} (short : k < (self.closed Real.sqrt i).length) :
    (self.run Real.sqrt self.numSegments).vertexCurve[self.place i + 2 + k]? = (self.closed Real.sqrt i)[k]? := by
  have two := self.length_opened Real.sqrt i
  rw [Nat.add_assoc, place, self.getElem?_run Real.sqrt link, chunk, List.getElem?_append_right (by omega), two,
    Nat.add_sub_cancel_left]
  rw [chunk, List.length_append]
  omega

theorem starts_of_continues (link : i < self.numSegments) (continues : self.Continues i) :
    (self.run Real.sqrt self.numSegments).vertexCurve[self.place i]? =
      some ⟨self.vertex (self.index i), self.radius (self.index i)⟩ := by
  have first := self.getElem?_opened link two_pos
  rw [opened, if_pos continues] at first
  exact first

/-- The curve of a link is as long as its control points, and has the ends of the link. -/
theorem linkCurve (link : i < self.numSegments) (proper : self.vertex (self.index i) ≠ self.vertex (self.index i + 1)) :
    self.LinkCurve (self.run Real.sqrt self.numSegments).toCurves i (self.place i) := by
  refine ⟨self.start_add_three_lt Real.sqrt link, ?_, ?_⟩
  · by_cases continues : self.Continues i
    · rw [if_pos continues]
      exact self.starts_of_continues link continues
    · rw [if_neg continues]
      have first := self.getElem?_opened link two_pos
      have second := self.getElem?_opened link one_lt_two
      rw [opened, if_neg continues] at first second
      obtain ⟨v, points, before, -⟩ := lerp_beyond proper (self.radius (self.index i))
      rw [before] at first
      exact ⟨v, points, first, second⟩
  · by_cases continued : i + 1 < self.numSegments ∧ self.Continues (i + 1)
    · have shared := self.starts_of_continues continued.1 continued.2
      have next : self.index (i + 1) = self.index i + 1 := continued.2
      rw [place, self.start_succ_of_continued Real.sqrt continued, next] at shared
      rw [if_pos continued]
      exact shared
    · rw [if_neg continued]
      have closed : self.closed Real.sqrt i = _ := if_neg continued
      have third := self.getElem?_closed link (k := 0) (by rw [closed]; exact two_pos)
      have fourth := self.getElem?_closed link (k := 1) (by rw [closed]; exact one_lt_two)
      rw [closed] at third fourth
      obtain ⟨v, points, -, beyond⟩ := lerp_beyond proper (self.radius (self.index i + 1))
      rw [beyond] at fourth
      exact ⟨v, points, third, fourth⟩

/-- The tangents at a shared control point are multiples of one vector. -/
structure Joined (curves : Curves ℝ) (i c next : Nat) : Prop where
  shared : next = c + 3
  vertex : curves.vertexCurve[next]? = some ⟨self.vertex (self.index (i + 1)), self.radius (self.index (i + 1))⟩
  smooth : ∃ before after : CurveVertex ℝ, curves.vertexCurve[c + 2]? = some before ∧
    curves.vertexCurve[next + 1]? = some after ∧ ∃ (v : Vec3 ℝ) (a b : ℝ), 0 ≤ a ∧ 0 ≤ b ∧
      self.vertex (self.index (i + 1)) - before.position = a • v ∧
      after.position - self.vertex (self.index (i + 1)) = b • v

theorem joined (continued : i + 1 < self.numSegments ∧ self.Continues (i + 1)) :
    self.Joined (self.run Real.sqrt self.numSegments).toCurves i (self.place i) (self.place (i + 1)) := by
  have next : self.index (i + 1) = self.index i + 1 := continued.2
  have closed : self.closed Real.sqrt i = _ := if_pos continued
  have opened : self.opened Real.sqrt (i + 1) = _ := if_pos continued.2
  have third := self.getElem?_closed (k := 0) (Nat.lt_of_succ_lt continued.1) (by rw [closed]; exact one_pos)
  have second := self.getElem?_opened continued.1 one_lt_two
  rw [closed] at third
  rw [opened] at second
  refine ⟨self.start_succ_of_continued Real.sqrt continued, self.starts_of_continues continued.1 continued.2, _, _,
    third, second, self.delta i, self.share Real.sqrt i, 1 - self.share Real.sqrt i, ?_, ?_, ?_, ?_⟩
  · exact div_nonneg (Real.sqrt_nonneg _) (add_nonneg (Real.sqrt_nonneg _) (Real.sqrt_nonneg _))
  · refine sub_nonneg.mpr (div_le_one_of_le₀ ?_ (add_nonneg (Real.sqrt_nonneg _) (Real.sqrt_nonneg _)))
    exact le_add_of_nonneg_right (Real.sqrt_nonneg _)
  · rw [next]
    exact sub_sub_cancel _ _
  · exact add_sub_cancel_left _ _

/-- The curves of stream lines are complete and smooth. -/
theorem curves_complete_and_smooth (curved : self.useCurve = true)
    (proper : ∀ i < self.numSegments, self.vertex (self.index i) ≠ self.vertex (self.index i + 1)) :
    ∃ curves, self.finalize Real.sqrt = some curves ∧ ∃ c : Nat → Nat,
      (∀ i < self.numSegments, curves.indexCurve[i]? = some (c i) ∧ self.LinkCurve curves i (c i)) ∧
        ∀ i, i + 1 < self.numSegments → self.Continues (i + 1) → self.Joined curves i (c i) (c (i + 1)) := by
  refine ⟨_, if_pos curved, self.place, fun i link => ⟨?_, ?_⟩, fun i more continues => ?_⟩
  · exact self.getElem?_indexCurve Real.sqrt link
  · exact self.linkCurve link (proper i link)
  · exact self.joined ⟨more, continues⟩

/-- A line of two links, and one of a single link. -/
noncomputable def twoLines : StreamLinesParams ℝ where
  globalRadius := 1
  smooth := true
  vertex := fun i => ![i, 0, 0]
  fourth := none
  radiusData := none
  index := fun i => if i < 2 then i else i + 1
  numSegments := 3

theorem curves_complete_and_smooth_twoLines :
    ∃ curves, twoLines.finalize Real.sqrt = some curves ∧ ∃ c : Nat → Nat,
      (∀ i < 3, curves.indexCurve[i]? = some (c i) ∧ twoLines.LinkCurve curves i (c i)) ∧
        ∀ i, i + 1 < 3 → twoLines.Continues (i + 1) → twoLines.Joined curves i (c i) (c (i + 1)) := by
  refine twoLines.curves_complete_and_smooth rfl fun i _ same => ?_
  have first : ((twoLines.index i : Nat) : ℝ) = ((twoLines.index i + 1 : Nat) : ℝ) := congrFun same 0
  exact absurd (Nat.cast_injective first) (Nat.succ_ne_self _).symm

end StreamLinesParams

end Ospray.Geometry
