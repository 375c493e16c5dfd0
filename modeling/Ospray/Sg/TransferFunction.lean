import Ospray.Library.ControlPoints
import Ospray.Library.Whiles

/-!
# Control points of transfer functions

The scene graph's transfer functions interpolate opacities and colors between control points.
A loop searches for the first point that is not left of the place; its counter has 32 bits.
Behind the last point, the color is made of the wrong components of that point: of its
position, red and green.
-/

namespace Ospray.Sg.TransferFunction

open Library.ControlPoints Library.Whiles

universe u
variable {K P E : Type u}

/-- `vec2f`: a position and an opacity. -/
structure Vec2 (K : Type u) where
  x : K
  y : K

/-- `vec4f`: a position and a color. -/
structure Vec4 (K : Type u) where
  x : K
  y : K
  z : K
  w : K

/-- `DataBuffer`, with elements of one type. -/
structure DataBuffer (P : Type u) where
  size : Nat
  get : Nat → P

section Search

variable [Field K] [LinearOrder K] [AddCommGroup E] [Module K E]
variable (controlPoints : DataBuffer P) (position : P → K) (value : P → E) (final : E) (x : K)

/-- One round of the search, or the result. The counter is a `uint32_t`. -/
def round : Nat ⊕ E → Pass (Nat ⊕ E)
  | .inr result => .leave (.inr result)
  | .inl i =>
    if i < controlPoints.size then
      let current := controlPoints.get i
      let previous := controlPoints.get ((i + (2 ^ 32 - 1)) % 2 ^ 32)
      if x ≤ position current then
        let t := (x - position previous) / (position current - position previous)
        .leave (.inr ((1 - t) • value previous + t • value current))
      else .again (.inl ((i + 1) % 2 ^ 32))
    else .leave (.inr final)

/-- Where the search begins: left of the first point there is none. -/
def start : Nat ⊕ E :=
  if x ≤ position (controlPoints.get 0) then .inr (value (controlPoints.get 0)) else .inl 1

/-- The interpolation between the values of control points, with a bound on the rounds. -/
def interpolate (rounds : Nat) : Option E :=
  (loop (round controlPoints position value final x) rounds (start controlPoints position value x)).bind
    Sum.getRight?

end Search

section Members

variable [Field K] [LinearOrder K]

/-- `TransferFunction::interpolateOpacity` -/
def interpolateOpacity (controlPoints : DataBuffer (Vec2 K)) (x : K) (rounds : Nat) : Option K :=
  let last := controlPoints.get (controlPoints.size - 1)
  interpolate controlPoints (·.x) (·.y) last.y x rounds

/-- `TransferFunction::interpolateColor` -/
def interpolateColor (controlPoints : DataBuffer (Vec4 K)) (x : K) (rounds : Nat) : Option (K × K × K) :=
  let last := controlPoints.get (controlPoints.size - 1)
  interpolate controlPoints (·.x) (fun point => (point.y, point.z, point.w)) (last.x, last.y, last.z) x rounds

end Members

/-- The call returns a result, for every sufficient number of rounds. -/
def Yields (call : Nat → Option E) (result : E) : Prop :=
  ∃ enough, ∀ rounds, enough ≤ rounds → call rounds = some result

/-- The search meets a point that is not left of the place before its counter wraps. -/
def Meets [LE K] (controlPoints : DataBuffer P) (position : P → K) (x : K) : Prop :=
  ∃ index < controlPoints.size, index < 2 ^ 32 ∧ x ≤ position (controlPoints.get index)

/-! ## The search -/

theorem Yields.unique {call : Nat → Option E} {result another : E} (first : Yields call result)
    (second : Yields call another) : result = another := by
  obtain ⟨enough, runs⟩ := first
  obtain ⟨enoughAgain, runsAgain⟩ := second
  have one := runs (max enough enoughAgain) (le_max_left _ _)
  rw [runsAgain (max enough enoughAgain) (le_max_right _ _)] at one
  exact (Option.some.inj one).symm

section Search

variable [Field K] [LinearOrder K] [AddCommGroup E] [Module K E]
variable {controlPoints : DataBuffer P} {position : P → K} {value : P → E} {final result : E} {x : K}

theorem yields_of_returns (returns : Returns (round controlPoints position value final x)
    (start controlPoints position value x) (.inr result)) :
    Yields (interpolate controlPoints position value final x) result := by
  obtain ⟨enough, runs⟩ := returns
  refine ⟨enough, fun rounds more => ?_⟩
  rw [interpolate, runs rounds more]
  rfl

theorem round_passes {i : Nat} (inside : i < controlPoints.size) (left : position (controlPoints.get i) < x) :
    round controlPoints position value final x (.inl i) = .again (.inl ((i + 1) % 2 ^ 32)) := by
  rw [round, if_pos inside]
  exact if_neg (not_le.mpr left)

theorem returns_from {first index : Nat} (ordered : first ≤ index) (small : index < 2 ^ 32)
    (inside : index ≤ controlPoints.size)
    (passed : ∀ i, first ≤ i → i < index → position (controlPoints.get i) < x)
    (returns : Returns (round controlPoints position value final x) (.inl index) (.inr result)) :
    Returns (round controlPoints position value final x) (.inl first) (.inr result) := by
  induction ordered using Nat.decreasingInduction with
  | self => exact returns
  | of_succ i less inductionHypothesis =>
    refine returns_again (round_passes (less.trans_le inside) (passed i le_rfl less)) ?_
    rw [Nat.mod_eq_of_lt (by omega)]
    exact inductionHypothesis fun other after before => passed other (Nat.le_of_succ_le after) before

variable [IsStrictOrderedRing K]

/-- Where the search meets a point, the result is interpolated. -/
theorem interpolate_meets
    (increasing : Increasing (fun index => position (controlPoints.get index)) (controlPoints.size - 1))
    (meets : Meets controlPoints position x) :
    ∃ result, Yields (interpolate controlPoints position value final x) result ∧
      InterpolatesAt (fun index => position (controlPoints.get index)) (fun index => value (controlPoints.get index))
        (controlPoints.size - 1) x result := by
  classical
  by_cases low : x ≤ position (controlPoints.get 0)
  · refine ⟨value (controlPoints.get 0), yields_of_returns ?_, interpolatesAt_before increasing low⟩
    rw [start, if_pos low]
    exact returns_leave rfl
  · obtain ⟨inside, small, right⟩ := Nat.find_spec meets
    have left : ∀ i, i < Nat.find meets → position (controlPoints.get i) < x := by
      intro i less
      by_contra reached
      exact Nat.find_min meets less ⟨less.trans inside, less.trans small, not_lt.mp reached⟩
    obtain ⟨before, found⟩ : ∃ before, Nat.find meets = before + 1 := by
      refine Nat.exists_eq_succ_of_ne_zero fun zero => low ?_
      rwa [zero] at right
    rw [found] at inside small right left
    refine ⟨_, yields_of_returns ?_, interpolatesAt_between increasing (Nat.lt_sub_of_add_lt inside)
      (left before (Nat.lt_succ_self _)).le right⟩
    rw [start, if_neg low]
    refine returns_from (Nat.le_add_left 1 before) small inside.le (fun i _ less => left i less) (returns_leave ?_)
    have previous : (before + 1 + (2 ^ 32 - 1)) % 2 ^ 32 = before := by omega
    rw [round, if_pos inside, previous]
    dsimp only
    rw [if_pos right, AffineMap.lineMap_apply_module]

omit [IsStrictOrderedRing K] in
/-- Where it meets none, the result is the final value, unless the counter wraps. -/
theorem interpolate_misses (some_ : 0 < controlPoints.size) (meets : ¬Meets controlPoints position x) :
    (controlPoints.size < 2 ^ 32 → Yields (interpolate controlPoints position value final x) final) ∧
      (2 ^ 32 ≤ controlPoints.size → ∀ result, ¬Yields (interpolate controlPoints position value final x) result) := by
  have left : ∀ i, i < controlPoints.size → i < 2 ^ 32 → position (controlPoints.get i) < x := by
    intro i inside small
    by_contra reached
    exact meets ⟨i, inside, small, not_lt.mp reached⟩
  have first : start controlPoints position value x = .inl 1 := if_neg (not_le.mpr (left 0 some_ (by decide)))
  constructor
  · intro small
    apply yields_of_returns
    rw [first]
    refine returns_from some_ small le_rfl (fun i _ inside => left i inside (inside.trans small)) (returns_leave ?_)
    rw [round, if_neg (lt_irrefl _)]
  · intro large result ⟨enough, runs⟩
    have forever : loop (round controlPoints position value final x) enough (.inl 1) = none := by
      refine loop_eq_none (fun state => ∃ i, state = .inl i ∧ i < 2 ^ 32) ?_ ⟨1, rfl, by decide⟩ enough
      rintro _ ⟨i, rfl, small⟩
      have inside := small.trans_le large
      exact ⟨_, round_passes inside (left i inside small), _, rfl, Nat.mod_lt _ (by decide)⟩
    have run := runs enough le_rfl
    rw [interpolate, first, forever] at run
    cases run

end Search

/-! ## The two interpolations -/

section Interpolations

variable [Field K] [LinearOrder K] [IsStrictOrderedRing K]

/-- There are control points, and their positions are strictly increasing. -/
structure Ordered (controlPoints : DataBuffer P) (position : P → K) : Prop where
  some_ : 0 < controlPoints.size
  increasing : Increasing (fun index => position (controlPoints.get index)) (controlPoints.size - 1)

/-- A result is interpolated between control points, and between bounds of their values. -/
structure Interpolated [AddCommGroup E] [PartialOrder E] [Module K E] (controlPoints : DataBuffer P) (position : P → K)
    (value : P → E) (x : K) (result : E) : Prop where
  interpolates : InterpolatesAt (fun index => position (controlPoints.get index))
    (fun index => value (controlPoints.get index)) (controlPoints.size - 1) x result
  bounded : ∀ lower upper, (∀ index < controlPoints.size, value (controlPoints.get index) ∈ Set.Icc lower upper) →
    result ∈ Set.Icc lower upper

variable {opacities : DataBuffer (Vec2 K)} {colors : DataBuffer (Vec4 K)} {x : K}

theorem interpolated_of_interpolatesAt [AddCommGroup E] [PartialOrder E] [Module K E]
    {controlPoints : DataBuffer P} {position : P → K} {value : P → E} {result : E}
    (convex : ∀ lower upper : E, Convex K (Set.Icc lower upper)) (ordered : Ordered controlPoints position)
    (interpolates : InterpolatesAt (fun index => position (controlPoints.get index))
      (fun index => value (controlPoints.get index)) (controlPoints.size - 1) x result) :
    Interpolated controlPoints position value x result := by
  refine ⟨interpolates, fun lower upper within => ?_⟩
  refine interpolates.mem_convex ordered.increasing (convex lower upper) fun index before => within index ?_
  have positive := ordered.some_
  omega

theorem convex_colors (lower upper : K × K × K) : Convex K (Set.Icc lower upper) := by
  rw [Set.Icc_prod_eq, Set.Icc_prod_eq]
  exact (convex_Icc _ _).prod ((convex_Icc _ _).prod (convex_Icc _ _))

theorem interpolatesAt_misses [AddCommGroup E] [Module K E] {controlPoints : DataBuffer P} {position : P → K}
    (value : P → E) (ordered : Ordered controlPoints position) (small : controlPoints.size < 2 ^ 32)
    (misses : ¬Meets controlPoints position x) :
    InterpolatesAt (fun index => position (controlPoints.get index)) (fun index => value (controlPoints.get index))
      (controlPoints.size - 1) x (value (controlPoints.get (controlPoints.size - 1))) := by
  refine interpolatesAt_after ordered.increasing (not_lt.mp fun less => misses ?_)
  have positive := ordered.some_
  exact ⟨controlPoints.size - 1, by omega, by omega, less.le⟩

/-- Opacities are interpolated, unless the counter of the search wraps. -/
theorem interpolateOpacity_iff (ordered : Ordered opacities Vec2.x) :
    (∃ result, Yields (interpolateOpacity opacities x) result ∧ Interpolated opacities Vec2.x Vec2.y x result) ↔
      Meets opacities Vec2.x x ∨ opacities.size < 2 ^ 32 := by
  by_cases meets : Meets opacities Vec2.x x
  · refine iff_of_true ?_ (.inl meets)
    obtain ⟨result, yields, interpolates⟩ := @interpolate_meets K (Vec2 K) K _ _ _ _ opacities Vec2.x Vec2.y
      (opacities.get (opacities.size - 1)).y x _ ordered.increasing meets
    exact ⟨result, yields, interpolated_of_interpolatesAt convex_Icc ordered interpolates⟩
  · obtain ⟨returns, never⟩ := @interpolate_misses K (Vec2 K) K _ _ _ _ opacities Vec2.x Vec2.y
      (opacities.get (opacities.size - 1)).y x ordered.some_ meets
    by_cases small : opacities.size < 2 ^ 32
    · refine iff_of_true ⟨_, returns small, ?_⟩ (.inr small)
      exact interpolated_of_interpolatesAt convex_Icc ordered (interpolatesAt_misses Vec2.y ordered small meets)
    · refine iff_of_false ?_ (not_or.mpr ⟨meets, small⟩)
      rintro ⟨result, yields, -⟩
      exact never (not_lt.mp small) result yields

/-- Colors are interpolated up to the last control point, and behind it if its components are
all the same. -/
theorem interpolateColor_iff (ordered : Ordered colors Vec4.x) :
    (∃ result, Yields (interpolateColor colors x) result ∧
        Interpolated colors Vec4.x (fun point => (point.y, point.z, point.w)) x result) ↔
      Meets colors Vec4.x x ∨ colors.size < 2 ^ 32 ∧
        ∃ component, colors.get (colors.size - 1) = ⟨component, component, component, component⟩ := by
  by_cases meets : Meets colors Vec4.x x
  · refine iff_of_true ?_ (.inl meets)
    obtain ⟨result, yields, interpolates⟩ := @interpolate_meets K (Vec4 K) (K × K × K) _ _ _ _ colors Vec4.x
      (fun point => (point.y, point.z, point.w)) ((colors.get (colors.size - 1)).x,
        (colors.get (colors.size - 1)).y, (colors.get (colors.size - 1)).z) x _ ordered.increasing meets
    exact ⟨result, yields, interpolated_of_interpolatesAt convex_colors ordered interpolates⟩
  · rw [or_iff_right meets]
    obtain ⟨returns, never⟩ := @interpolate_misses K (Vec4 K) (K × K × K) _ _ _ _ colors Vec4.x
      (fun point => (point.y, point.z, point.w)) ((colors.get (colors.size - 1)).x,
        (colors.get (colors.size - 1)).y, (colors.get (colors.size - 1)).z) x ordered.some_ meets
    constructor
    · rintro ⟨result, yields, interpolated⟩
      have small : colors.size < 2 ^ 32 := by
        by_contra large
        exact never (not_lt.mp large) result yields
      have expected := interpolatesAt_misses (fun point => (point.y, point.z, point.w)) ordered small meets
      have same := (yields.unique (returns small)).symm.trans (interpolated.interpolates.unique expected)
      refine ⟨small, ?_⟩
      generalize colors.get (colors.size - 1) = last at same ⊢
      obtain ⟨first, red, green, blue⟩ := last
      dsimp only at same
      obtain ⟨rfl, rest⟩ := Prod.mk.inj same
      obtain ⟨rfl, rfl⟩ := Prod.mk.inj rest
      exact ⟨_, rfl⟩
    · rintro ⟨small, component, last⟩
      refine ⟨_, returns small, ?_⟩
      have expected := interpolatesAt_misses (fun point => (point.y, point.z, point.w)) ordered small meets
      rw [last] at expected ⊢
      exact interpolated_of_interpolatesAt convex_colors ordered expected

/-- Both functions interpolate between their control points. -/
def Interpolates (opacities : DataBuffer (Vec2 K)) (colors : DataBuffer (Vec4 K)) (x : K) : Prop :=
  (∃ result, Yields (interpolateOpacity opacities x) result ∧ Interpolated opacities Vec2.x Vec2.y x result) ∧
    ∃ result, Yields (interpolateColor colors x) result ∧
      Interpolated colors Vec4.x (fun point => (point.y, point.z, point.w)) x result

/-- Exactly when both do. -/
theorem interpolates_iff (opacitiesOrdered : Ordered opacities Vec2.x) (colorsOrdered : Ordered colors Vec4.x) :
    Interpolates opacities colors x ↔ (Meets opacities Vec2.x x ∨ opacities.size < 2 ^ 32) ∧
      (Meets colors Vec4.x x ∨ colors.size < 2 ^ 32 ∧
        ∃ component, colors.get (colors.size - 1) = ⟨component, component, component, component⟩) :=
  and_congr (interpolateOpacity_iff opacitiesOrdered) (interpolateColor_iff colorsOrdered)

end Interpolations

/-- Increasing opacities. -/
def ramp : DataBuffer (Vec2 ℚ) := ⟨2, fun index => ⟨index, index⟩⟩

/-- Blue, at one position. -/
def blue (position : ℚ) : DataBuffer (Vec4 ℚ) := ⟨1, fun _ => ⟨position, 0, 0, 1⟩⟩

theorem ordered_ramp : Ordered ramp Vec2.x := by
  refine ⟨Nat.zero_lt_two, fun first second less _ => ?_⟩
  exact Nat.cast_lt.mpr less

theorem ordered_blue (position : ℚ) : Ordered (blue position) Vec4.x := by
  refine ⟨Nat.zero_lt_one, fun first second less inside => ?_⟩
  exact absurd (Nat.lt_of_lt_of_le less inside) (Nat.not_lt_zero first)

/-- Up to the last control point. -/
theorem interpolates_iff_ramp : Interpolates ramp (blue 1) (1 / 2) := by
  refine (interpolates_iff ordered_ramp (ordered_blue 1)).mpr ⟨.inr ?_, .inl ⟨0, ?_, ?_, ?_⟩⟩
  · decide
  · decide
  · decide
  · norm_num [blue]

/-- Behind a blue control point at a half, the color is a dark red. -/
theorem color_not_interpolated :
    ¬∀ (opacities : DataBuffer (Vec2 ℚ)) (colors : DataBuffer (Vec4 ℚ)) (x : ℚ),
      Ordered opacities Vec2.x → Ordered colors Vec4.x → Interpolates opacities colors x := by
  intro claim
  obtain ⟨-, result, yields, interpolated⟩ := claim ramp (blue (1 / 2)) 1 ordered_ramp (ordered_blue _)
  have expected : result = (0, 0, 1) := interpolated.interpolates.after (by norm_num [blue])
  have misses : ¬Meets (blue (1 / 2)) Vec4.x 1 := by
    rintro ⟨index, -, -, reached⟩
    norm_num [blue] at reached
  have returned : Yields (interpolateColor (blue (1 / 2)) 1) (1 / 2, 0, 0) :=
    (interpolate_misses Nat.zero_lt_one misses).1 (by decide)
  have wrong := congrArg Prod.fst (returned.unique (expected ▸ yields))
  norm_num at wrong

end Ospray.Sg.TransferFunction
