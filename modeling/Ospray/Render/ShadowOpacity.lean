import Ospray.Library.Lockstep
import Ospray.Render.VolumeIntegration
import Ospray.Volume.PreIntegration

/-!
# The opacity for shadow rays

A shadow ray looks up opacities only. The code that remembers a sample for the next lookup is in
the branch for the other rays, so that a shadow ray pairs every sample with the first one since it
set out or went back.
-/

namespace Ospray.VolumeInterval

open Library.Whiles Library.Lockstep

variable {K : Type} [Field K] [LinearOrder K] {call : Arguments K} {state state' : State K}

omit [Field K] [LinearOrder K] in
/-- The call for a ray that is a shadow ray, or is not. -/
def Arguments.asShadow (call : Arguments K) (isShadowRay : Bool) : Arguments K :=
  { call with isShadowRay := isShadowRay }

/-- Two states that have visited the same positions, looked up the same pairs, and added up the same opacity. -/
def Agree (state state' : State K) : Prop :=
  state.visited = state'.visited ∧ state.lookups = state'.lookups ∧ state.alpha = state'.alpha

/-- The integration for shadow rays does what that for primary rays does, as far as opacity is concerned. -/
structure SameOpacity (call : Arguments K) : Prop where
  states : ∀ passes, Agree (stage (call.asShadow false).pass passes (call.asShadow false).start)
    (stage (call.asShadow true).pass passes (call.asShadow true).start)
  results : ∀ fuel, ((call.asShadow false).computeVolumeInterval fuel).map (· 3) =
    ((call.asShadow true).computeVolumeInterval fuel).map (· 3)

/-- If a sample is looked up in the state, the one before it was the same as the one that it was paired with. -/
def Arguments.Steady (call : Arguments K) (state : State K) : Prop :=
  call.Inside state →
    ∀ sample, call.volume.sample (call.coordinates state.ray.t0) = some sample →
      ∀ earlier previous, state.previous = some (earlier, previous) → paired previous sample = paired earlier sample

/-- A state for primary rays and one for shadow rays that differ in color and in the last sample. -/
structure Related (state state' : State K) : Prop where
  ray : state.ray = state'.ray
  samplingRate : state.samplingRate = state'.samplingRate
  tSkipped : state.tSkipped = state'.tSkipped
  alpha : state.alpha = state'.alpha
  visited : state.visited = state'.visited
  lookups : state.lookups = state'.lookups
  previous : state.previous = state'.previous
  fresh : state.previous = none → state.lastSample = state'.lastSample
  last : ∀ earlier previous, state.previous = some (earlier, previous) →
    state.lastSample = previous ∧ state'.lastSample = earlier

omit [Field K] [LinearOrder K] in
theorem Related.agree (related : Related state state') : Agree state state' :=
  ⟨related.visited, related.lookups, related.alpha⟩

omit [LinearOrder K] in
theorem related_start (call : Arguments K) : Related (call.asShadow false).start (call.asShadow true).start :=
  ⟨rfl, rfl, rfl, rfl, rfl, rfl, rfl, fun _ => rfl, fun _ _ some_ => (nomatch some_)⟩

theorem takeSample_lookups (call : Arguments K) (sample : K) (state : State K) :
    (call.takeSample sample state).lookups = (paired state.lastSample sample, sample) :: state.lookups := by
  simp only [Arguments.takeSample]
  split_ifs
  · rfl
  · exact (composite_spec ..).lookups
  · exact (composite_spec ..).lookups

/-- Samples that are added. -/
theorem Related.composite {coordinates : Vec3 K} {sample sampleOpacity : K} (ray : state.ray = state'.ray)
    (samplingRate : state.samplingRate = state'.samplingRate) (tSkipped : state.tSkipped = state'.tSkipped)
    (alpha : state.alpha = state'.alpha) (visited : state.visited = state'.visited)
    (lookups : state.lookups = state'.lookups) (previous : state.previous = some (state'.lastSample, sample))
    (previous' : state'.previous = some (state'.lastSample, sample)) :
    Related ((call.asShadow false).composite coordinates sample sampleOpacity state)
      ((call.asShadow true).composite coordinates sample sampleOpacity state') := by
  have primary := composite_spec (call.asShadow false) coordinates sample sampleOpacity state
  have shadow := composite_spec (call.asShadow true) coordinates sample sampleOpacity state'
  have rate : (call.asShadow false).nextRate sampleOpacity state = (call.asShadow true).nextRate sampleOpacity state' := by
    simp only [Arguments.nextRate, ray, tSkipped, samplingRate]
    rfl
  have part : (call.asShadow false).part sampleOpacity state = (call.asShadow true).part sampleOpacity state' := by
    simp only [Arguments.part, ray]
    rfl
  refine ⟨?_, ?_, ?_, ?_, ?_, ?_, ?_, fun none_ => ?_, fun earlier last some_ => ?_⟩
  · rw [primary.ray, shadow.ray, ray, rate]
    rfl
  · rw [primary.samplingRate, shadow.samplingRate, rate]
  · rw [primary.tSkipped, shadow.tSkipped, tSkipped]
  · rw [primary.alpha, shadow.alpha, alpha, part]
  · rw [primary.visited, shadow.visited, visited]
  · rw [primary.lookups, shadow.lookups, lookups]
  · rw [primary.previous, shadow.previous, previous, previous']
  · rw [primary.previous, previous] at none_
    cases none_
  · rw [primary.previous, previous] at some_
    obtain ⟨rfl, rfl⟩ := Prod.mk.inj (Option.some.inj some_)
    exact ⟨primary.lastSample, shadow.lastSample⟩

theorem Related.takeSample (related : Related state state') {sample : K}
    (same : paired state.lastSample sample = paired state'.lastSample sample) :
    Related ((call.asShadow false).takeSample sample state) ((call.asShadow true).takeSample sample state') := by
  obtain ⟨ray, samplingRate, tSkipped, alpha, visited, lookups, previous, -, -⟩ := related
  simp only [Arguments.takeSample, ← same, ← ray, ← tSkipped, ← samplingRate]
  have pairs : (paired state.lastSample sample, sample) :: state.lookups =
      (paired state.lastSample sample, sample) :: state'.lookups := by rw [lookups]
  have branch : (call.asShadow false).volume = (call.asShadow true).volume := rfl
  have rate : (call.asShadow false).adaptedRate = (call.asShadow true).adaptedRate := rfl
  rw [branch, rate]
  split_ifs with refines higher
  · exact ⟨by rw [Arguments.backtrack, Arguments.backtrack]; rfl, rfl, rfl, alpha, visited, pairs, rfl, fun _ => rfl,
      by rintro _ _ ⟨⟩⟩
  · exact Related.composite rfl rfl rfl alpha visited pairs rfl rfl
  · exact Related.composite rfl rfl rfl alpha visited pairs rfl rfl

theorem Related.paired_eq (related : Related state state') (steady : call.Steady state) {sample : K}
    (inside : call.Inside state) (sampled : call.volume.sample (call.coordinates state.ray.t0) = some sample) :
    paired state.lastSample sample = paired state'.lastSample sample := by
  cases before : state.previous with
  | none => rw [related.fresh before]
  | some pair =>
    obtain ⟨earlier, last⟩ := pair
    obtain ⟨here, there⟩ := related.last earlier last before
    rw [here, there]
    exact steady inside sample sampled earlier last before

/-- Passes from a steady state. -/
theorem Related.pass (related : Related state state') (steady : call.Steady state) :
    Both Related ((call.asShadow false).pass state) ((call.asShadow true).pass state') := by
  have inside_iff : call.Inside state ↔ call.Inside state' := by
    rw [Arguments.Inside, Arguments.Inside, related.ray, related.alpha]
  by_cases inside : call.Inside state
  · have visited : state.ray.t0 :: state.visited = state'.ray.t0 :: state'.visited := by
      rw [related.ray, related.visited]
    cases sampled : call.volume.sample (call.coordinates state.ray.t0) with
    | none =>
      have sampled' := related.ray ▸ sampled
      have went := pass_none (call.asShadow false) inside sampled
      have went' := pass_none (call.asShadow true) (inside_iff.mp inside) sampled'
      rw [went, went']
      exact .again { related with ray := congrArg (call.volume.stepRay · _) related.ray, visited := visited }
    | some sample =>
      have sampled' := related.ray ▸ sampled
      have went := pass_some (call.asShadow false) inside sampled
      have went' := pass_some (call.asShadow true) (inside_iff.mp inside) sampled'
      rw [went, went']
      have visiting : Related { state with visited := state.ray.t0 :: state.visited }
          { state' with visited := state'.ray.t0 :: state'.visited } := { related with visited := visited }
      exact .again (visiting.takeSample (related.paired_eq steady inside sampled))
  · have left := pass_outside (call.asShadow false) inside
    have left' := pass_outside (call.asShadow true) (inside_iff.not.mp inside)
    rw [left, left']
    exact .leave related

theorem Related.steady (related : Related state state')
    (agree : Agree ((call.asShadow false).pass state).result ((call.asShadow true).pass state').result) :
    call.Steady state := by
  intro inside sample sampled earlier last before
  obtain ⟨here, there⟩ := related.last earlier last before
  have inside' : call.Inside state' := by
    rw [Arguments.Inside, ← related.ray, ← related.alpha]
    exact inside
  have went := pass_some (call.asShadow false) inside sampled
  have went' := pass_some (call.asShadow true) inside' (related.ray ▸ sampled)
  have lookups := agree.2.1
  rw [went, went', Pass.result, Pass.result, takeSample_lookups, takeSample_lookups] at lookups
  have pairs := (Prod.mk.inj (List.cons.inj lookups).1).1
  dsimp only at pairs
  rwa [here, there] at pairs

/-- The integration has the same opacity for shadow rays and for primary rays if and only if, in every state of the one
for primary rays, the sample before is as good as the one it was paired with. -/
theorem sameOpacity_iff (call : Arguments K) :
    SameOpacity call ↔ ∀ passes, call.Steady (stage (call.asShadow false).pass passes (call.asShadow false).start) := by
  have start := related_start call
  have kept : ∀ state state', Related state state' → call.Steady state →
      Both Related ((call.asShadow false).pass state) ((call.asShadow true).pass state') := fun _ _ => Related.pass
  have needed : ∀ state state', Related state state' →
      Agree ((call.asShadow false).pass state).result ((call.asShadow true).pass state').result →
      call.Steady state := fun _ _ => Related.steady
  have states := agree_iff kept (fun _ _ => Related.agree) needed start
  refine ⟨fun same => states.mp same.states, fun steady => ⟨states.mpr steady, fun fuel => ?_⟩⟩
  rw [Arguments.computeVolumeInterval, Arguments.computeVolumeInterval, Option.map_map, Option.map_map]
  have both := loop_related kept start steady fuel
  generalize loop (call.asShadow false).pass fuel (call.asShadow false).start = primary at both ⊢
  generalize loop (call.asShadow true).pass fuel (call.asShadow true).start = shadow at both ⊢
  cases both with
  | none => rfl
  | some related =>
    refine congrArg some ?_
    exact (finish_alpha _).trans (related.alpha.trans (finish_alpha _).symm)

/-- Opacities that grow from zero to one half, looked up for pairs of values. -/
def growing : PreIntegratedTransferFunction where
  valueRange := (0, 1)
  opacityValues := fun index => if index = 1 then 1 / 2 else 0
  opacityValueCount := 2
  minMaxOpacityInRange := fun _ => (0, 1 / 2)
  colorValues := fun _ _ => 1
  colorValueCount := 2
  opacityPITable := fun _ => 0
  colorPITable := fun _ _ => 1
  preIntegration := true
  preIntegrationComputed := true

/-- A ray with three samples, of which the last two have a value of one. -/
def throughEdge : Arguments ℚ :=
  { throughRamp with
    volume :=
      { ramp with
        adaptiveSampling := false
        sample := fun coordinates => some (if coordinates 0 < 2 then 0 else 1)
        getIntegratedOpacityForValue := fun value1 value2 =>
          growing.getIntegratedOpacityForValue (some value1) (some value2) } }

/-- The third sample is paired with the second one for a primary ray, and with the first one for a shadow ray. -/
theorem opacity_differs : ¬SameOpacity throughEdge := by
  intro same
  have results := same.results 5
  revert results
  decide +kernel

end Ospray.VolumeInterval
