import Mathlib.Data.Rat.Floor
import Ospray.Library.Progress
import Ospray.Render.VolumeInterval

/-!
# Integration ends with an opacity

A pass that takes the ray back leaves it in front of the place up to which the rate is not adapted
any more, and moves that place to where the ray was. Whatever else happens in a pass, the lengths
left for the ray and for that place become less. Of the opacity every pass takes a share of what is
left to one.
-/

namespace Ospray.VolumeInterval

open Library.Whiles Library.Progress

variable {K : Type} [Field K] [LinearOrder K] {call : Arguments K} {state next : State K}

/-- The volume advances rays by at least a length, and stores the advance. -/
def Volume.Advances (volume : Volume K) (length : K) : Prop :=
  ∀ ray samplingRate, ray.t0 + length ≤ (volume.stepRay ray samplingRate).t0 ∧
    (volume.stepRay ray samplingRate).time = (volume.stepRay ray samplingRate).t0 - ray.t0

/-- What a pass does to opacity and ray: the opacity takes a share of the rest. The ray steps on from where it is, or
from a place in front of the one up to which it may not go back; this one only moves to where the ray is. -/
structure Progresses (volume : Volume K) (state next : State K) : Prop where
  share : ∃ part, 0 ≤ part ∧ part ≤ 1 ∧ next.alpha = state.alpha + (1 - state.alpha) * part
  steps : ∃ (from_ : Ray K) (samplingRate : K), next.ray = volume.stepRay from_ samplingRate ∧
    (from_.t0 = state.ray.t0 ∧ (next.tSkipped = state.tSkipped ∨
        state.tSkipped < state.ray.t0 ∧ next.tSkipped = state.ray.t0) ∨
      state.tSkipped ≤ from_.t0 ∧ state.tSkipped < state.ray.t0 ∧ next.tSkipped = state.ray.t0)

/-- The condition of the loop. -/
def Arguments.Inside (call : Arguments K) (state : State K) : Prop :=
  state.ray.t0 < call.tEnd ∧ state.alpha < call.maxOpacity

theorem pass_outside (call : Arguments K) (outside : ¬call.Inside state) : call.pass state = .leave state := if_neg outside

theorem pass_none (call : Arguments K) (inside : call.Inside state) (sampled : call.volume.sample (call.coordinates state.ray.t0) = none) :
    call.pass state = .again
      { state with
        visited := state.ray.t0 :: state.visited
        ray := call.volume.stepRay state.ray call.volume.samplingRate } := by
  refine (if_pos inside).trans ?_
  simp only [sampled]

theorem pass_some (call : Arguments K) {sample : K} (inside : call.Inside state)
    (sampled : call.volume.sample (call.coordinates state.ray.t0) = some sample) :
    call.pass state = .again (call.takeSample sample { state with visited := state.ray.t0 :: state.visited }) := by
  refine (if_pos inside).trans ?_
  simp only [sampled]

/-- The opacity of a sample that is added. -/
def Arguments.part (call : Arguments K) (sampleOpacity : K) (state : State K) : K :=
  if call.volume.adaptiveSampling then
    clamp (call.quotient sampleOpacity (call.quotient 1 (call.quotient state.ray.time call.volume.samplingStep)))
  else clamp (call.quotient sampleOpacity call.volume.samplingRate)

/-- The rate after a sample is added. -/
def Arguments.nextRate (call : Arguments K) (sampleOpacity : K) (state : State K) : K :=
  if call.volume.adaptiveSampling ∧ state.ray.t0 > state.tSkipped then
    max (call.adaptedRate sampleOpacity) (call.volume.samplingRate * call.quality)
  else state.samplingRate

theorem shadeSample_frame (call : Arguments K) (coordinates : Vec3 K) (sample sampleOpacity : K) (state : State K) :
    ∃ single coordinates', (call.shadeSample coordinates sample sampleOpacity state).2 =
      { state with
        lastSample := if call.isShadowRay then state.lastSample else sample
        singleMax := single
        singleCoordinates := coordinates' } := by
  simp only [Arguments.shadeSample]
  split_ifs <;> exact ⟨_, _, rfl⟩

/-- What adding a sample does, apart from its color and what shading needs. -/
structure Composited (call : Arguments K) (sample sampleOpacity : K) (state next : State K) : Prop where
  ray : next.ray = call.volume.stepRay state.ray
    (if call.volume.adaptiveSampling then call.nextRate sampleOpacity state else call.volume.samplingRate)
  samplingRate : next.samplingRate = call.nextRate sampleOpacity state
  lastSample : next.lastSample = if call.isShadowRay then state.lastSample else sample
  tSkipped : next.tSkipped = state.tSkipped
  alpha : next.alpha = state.alpha + (1 - state.alpha) * call.part sampleOpacity state
  visited : next.visited = state.visited
  lookups : next.lookups = state.lookups
  previous : next.previous = state.previous

theorem composite_spec (call : Arguments K) (coordinates : Vec3 K) (sample sampleOpacity : K) (state : State K) :
    Composited call sample sampleOpacity state (call.composite coordinates sample sampleOpacity state) := by
  obtain ⟨single, coordinates', shaded⟩ := shadeSample_frame call coordinates sample sampleOpacity state
  rw [Arguments.composite, shaded]
  by_cases adaptive : call.volume.adaptiveSampling
  · simp only [if_pos adaptive]
    constructor <;> simp [Arguments.nextRate, Arguments.part, State.alpha, adaptive]
  · simp only [if_neg adaptive]
    constructor <;> simp [Arguments.nextRate, Arguments.part, State.alpha, adaptive]

section Ordered

variable [IsStrictOrderedRing K]

theorem clamp_le_one (value : K) : clamp value ≤ 1 := max_le zero_le_one (min_le_right _ _)

theorem part_mem (call : Arguments K) (sampleOpacity : K) (state : State K) :
    0 ≤ call.part sampleOpacity state ∧ call.part sampleOpacity state ≤ 1 := by
  rw [Arguments.part]
  split_ifs
  · exact ⟨le_max_left _ _, clamp_le_one _⟩
  · exact ⟨le_max_left _ _, clamp_le_one _⟩

theorem share_none (alpha : K) : ∃ part : K, 0 ≤ part ∧ part ≤ 1 ∧ alpha = alpha + (1 - alpha) * part :=
  ⟨0, le_rfl, zero_le_one, by rw [mul_zero, add_zero]⟩

theorem Composited.progresses {sample sampleOpacity : K} {before : State K}
    (composited : Composited call sample sampleOpacity state next) (alpha : state.alpha = before.alpha)
    (ray : state.ray = before.ray) (skipped : state.tSkipped = before.tSkipped ∨
      before.tSkipped < before.ray.t0 ∧ state.tSkipped = before.ray.t0) : Progresses call.volume before next := by
  obtain ⟨nonneg, le_one⟩ := part_mem call sampleOpacity state
  refine ⟨⟨_, nonneg, le_one, ?_⟩, state.ray, _, composited.ray, Or.inl ⟨by rw [ray], ?_⟩⟩
  · rw [composited.alpha, alpha]
  · rw [composited.tSkipped]
    exact skipped

theorem takeSample_progresses (call : Arguments K) (sample : K) (state : State K) :
    Progresses call.volume state (call.takeSample sample state) := by
  simp only [Arguments.takeSample]
  split_ifs with refines higher
  · obtain ⟨-, -, ahead⟩ := refines
    refine ⟨share_none _, _, _, rfl, Or.inr ⟨?_, ahead, rfl⟩⟩
    exact (le_max_right _ _).trans (le_max_left _ _)
  · obtain ⟨-, -, ahead⟩ := refines
    exact (composite_spec ..).progresses rfl rfl (Or.inr ⟨ahead, rfl⟩)
  · exact (composite_spec ..).progresses rfl rfl (Or.inl rfl)

theorem pass_progresses (went : call.pass state = .again next) :
    state.ray.t0 < call.tEnd ∧ Progresses call.volume state next := by
  by_cases inside : call.Inside state
  swap
  · rw [pass_outside call inside] at went
    cases went
  refine ⟨inside.1, ?_⟩
  cases sampled : call.volume.sample (call.coordinates state.ray.t0) with
  | none =>
    rw [pass_none call inside sampled] at went
    obtain rfl := Pass.again.inj went
    exact ⟨share_none _, state.ray, _, rfl, Or.inl ⟨rfl, Or.inl rfl⟩⟩
  | some sample =>
    rw [pass_some call inside sampled] at went
    obtain rfl := Pass.again.inj went
    obtain ⟨share, steps⟩ := takeSample_progresses call sample
      { state with visited := state.ray.t0 :: state.visited }
    exact ⟨share, steps⟩

theorem Progresses.alpha_mono {volume : Volume K} (progresses : Progresses volume state next) (le_one : state.alpha ≤ 1) :
    state.alpha ≤ next.alpha ∧ next.alpha ≤ 1 := by
  obtain ⟨part, nonneg, part_le, alpha⟩ := progresses.share
  have rest : 0 ≤ 1 - state.alpha := sub_nonneg.mpr le_one
  rw [alpha]
  refine ⟨le_add_of_nonneg_right (mul_nonneg rest nonneg), ?_⟩
  calc state.alpha + (1 - state.alpha) * part
    _ ≤ state.alpha + (1 - state.alpha) * 1 := by gcongr
    _ = 1 := by rw [mul_one, add_sub_cancel]

/-- The lengths left for the ray and for the place up to which the rate is not adapted. -/
def Arguments.left [FloorSemiring K] (call : Arguments K) (length : K) (state : State K) : Nat :=
  Library.Progress.left length call.tEnd state.ray.t0 + Library.Progress.left length call.tEnd state.tSkipped

/-- A pass leaves less. -/
theorem Progresses.left_lt [FloorSemiring K] {length : K} (positive : 0 < length)
    (advances : call.volume.Advances length) (inside : state.ray.t0 < call.tEnd)
    (progresses : Progresses call.volume state next) : call.left length next < call.left length state := by
  obtain ⟨from_, samplingRate, stepped, ⟨here, skipped⟩ | ⟨back, ahead, skipped⟩⟩ := progresses.steps
  · have ray : Library.Progress.left length call.tEnd next.ray.t0 < Library.Progress.left length call.tEnd state.ray.t0 := by
      refine Library.Progress.left_lt positive inside ?_
      rw [stepped, ← here]
      exact (advances from_ samplingRate).1
    have marker : Library.Progress.left length call.tEnd next.tSkipped ≤
        Library.Progress.left length call.tEnd state.tSkipped := by
      refine left_mono positive ?_
      obtain same | ⟨ahead, moved⟩ := skipped
      · exact same.ge
      · exact ahead.le.trans moved.ge
    exact Nat.add_lt_add_of_lt_of_le ray marker
  · -- ray and marker change places
    have ray : Library.Progress.left length call.tEnd next.ray.t0 < Library.Progress.left length call.tEnd state.tSkipped := by
      refine Library.Progress.left_lt positive (ahead.trans inside) ?_
      rw [stepped]
      exact (add_le_add_left back length).trans (advances from_ samplingRate).1
    have marker : Library.Progress.left length call.tEnd next.tSkipped =
        Library.Progress.left length call.tEnd state.ray.t0 := by
      rw [skipped]
    rw [Arguments.left, Arguments.left, marker]
    omega

/-- The opacity is a share of one. -/
def State.Partial (state : State K) : Prop := 0 ≤ state.alpha ∧ state.alpha ≤ 1

omit [IsStrictOrderedRing K] in
theorem finish_alpha (state : State K) : call.finish state 3 = state.alpha := by
  rw [Arguments.finish]
  split_ifs <;> rfl

theorem start_partial_alpha (call : Arguments K) : call.start.Partial := ⟨le_rfl, zero_le_one⟩

theorem pass_keeps_partial_alpha (shared : state.Partial) (went : call.pass state = .again next) : next.Partial := by
  obtain ⟨-, progresses⟩ := pass_progresses went
  obtain ⟨grown, le_one⟩ := progresses.alpha_mono shared.2
  exact ⟨shared.1.trans grown, le_one⟩

omit [IsStrictOrderedRing K] in
theorem pass_leave {last : State K} (left : call.pass state = .leave last) : last = state := by
  by_cases inside : call.Inside state
  · cases sampled : call.volume.sample (call.coordinates state.ray.t0) with
    | none => exact (nomatch (pass_none call inside sampled).symm.trans left)
    | some sample => exact (nomatch (pass_some call inside sampled).symm.trans left)
  · exact (Pass.leave.inj ((pass_outside call inside).symm.trans left)).symm

/-- If the volume advances rays by at least some length, the integration ends, adaptive or not. The opacity is between
zero and one all the time, and never decreases. -/
theorem integration_ends [FloorSemiring K] (call : Arguments K) (length : K) (positive : 0 < length)
    (advances : call.volume.Advances length) :
    (∃ result, (∃ enough, ∀ fuel, enough ≤ fuel → call.computeVolumeInterval fuel = some result) ∧
      0 ≤ result 3 ∧ result 3 ≤ 1) ∧
    ∀ state, Reaches call.pass call.start state → state.Partial ∧
      ∀ next, call.pass state = .again next → state.alpha ≤ next.alpha := by
  constructor
  · obtain ⟨last, ⟨enough, runs⟩, shared⟩ := returns_of_measure State.Partial State.Partial (call.left length)
      (fun state last shared left => pass_leave left ▸ shared)
      (fun state next shared went => ⟨pass_keeps_partial_alpha shared went,
        (pass_progresses went).2.left_lt positive advances (pass_progresses went).1⟩) (start_partial_alpha call)
    refine ⟨call.finish last, ⟨enough, fun fuel more => ?_⟩, ?_⟩
    · rw [Arguments.computeVolumeInterval, runs fuel more, Option.map_some]
    · rw [finish_alpha]
      exact shared
  · intro state path
    have shared : state.Partial := path.keeps (fun _ _ => pass_keeps_partial_alpha) (start_partial_alpha call)
    exact ⟨shared, fun next went => ((pass_progresses went).2.alpha_mono shared.2).1⟩

end Ordered

/-- A volume whose values grow along the first axis, between zero and one, and whose rays take steps of a length of one. -/
def ramp : Volume ℚ where
  samplingRate := 1
  samplingStep := 1
  adaptiveScalar := 15
  adaptiveMaxSamplingRate := 2
  adaptiveBacktrack := 1 / 50
  adaptiveSampling := true
  gradientShadingEnabled := false
  singleShade := true
  stepRay := fun ray _ => { ray with t0 := ray.t0 + 1, time := 1 }
  sample := fun coordinates => some (coordinates 0 / 4)
  getIntegratedOpacityForValue := fun value1 value2 => (value1 + value2) / 2
  getIntegratedColorForValue := fun _ _ => 1

/-- A ray through it. -/
def throughRamp : Arguments ℚ where
  volume := ramp
  ray := { t0 := 0, time := 0, geomID := -1, primID := -1, instID := -1 }
  org := 0
  dir := ![1, 0, 0]
  tBegin := 0
  tEnd := 4
  maxOpacity := 1
  isShadowRay := false
  quality := 1
  volumeEpsilon := 1 / 1000
  shade := fun _ _ color => color
  shadeSingle := fun _ _ color _ => ![color 0, color 1, color 2]
  uninitialized := 0
  overZero := id

theorem integration_ends_ramp : ∃ result, (∃ enough, ∀ fuel, enough ≤ fuel →
    throughRamp.computeVolumeInterval fuel = some result) ∧ 0 ≤ result 3 ∧ result 3 ≤ 1 := by
  refine (integration_ends throughRamp 1 zero_lt_one fun ray _ => ⟨le_rfl, ?_⟩).1
  exact (add_sub_cancel_left ray.t0 1).symm

end Ospray.VolumeInterval
