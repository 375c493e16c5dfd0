import Mathlib.Data.Fin.VecNotation
import Mathlib.Algebra.Order.Field.Basic
import Ospray.Fb.Tile
import Ospray.Library.Whiles

/-!
# Integrating a volume along a ray

The loop goes along a ray in steps that the volume determines, and adds up color and opacity of
the samples. With adaptive sampling the rate follows the opacity, and where the opacity rises the
ray goes back by a step, to take the samples again with a higher rate. The state of the loop also
records the positions that are visited and the pairs of values whose opacity is looked up.
-/

namespace Ospray.VolumeInterval

open Library.Whiles

variable {K : Type}

/-- The fields of a `Ray` that stepping changes. -/
structure Ray (K : Type) where
  t0 : K
  time : K
  geomID : Int
  primID : Int
  instID : Int

/-- A volume with its transfer function. Samples may be NaN, which is `none`. -/
structure Volume (K : Type) where
  samplingRate : K
  samplingStep : K
  adaptiveScalar : K
  adaptiveMaxSamplingRate : K
  adaptiveBacktrack : K
  adaptiveSampling : Bool
  gradientShadingEnabled : Bool
  singleShade : Bool
  stepRay : Ray K → K → Ray K
  sample : Vec3 K → Option K
  getIntegratedOpacityForValue : K → K → K
  getIntegratedColorForValue : K → K → Vec3 K

/-- The arguments of `SciVisRenderer_computeVolumeInterval`. The color of a shaded sample depends on the ray, the place
and the color there. Color that is not initialized and quotients by zero are anything. -/
structure Arguments (K : Type) where
  volume : Volume K
  ray : Ray K
  org : Vec3 K
  dir : Vec3 K
  tBegin : K
  tEnd : K
  maxOpacity : K
  isShadowRay : Bool
  quality : K
  volumeEpsilon : K
  shade : Ray K → Vec3 K → Vec3 K → Vec3 K
  shadeSingle : Ray K → Vec3 K → Vec4 K → K → Vec3 K
  uninitialized : Vec3 K
  overZero : K → K

/-- The variables of the loop, with the positions visited, the values looked up, and the last of these since the ray
went back. -/
structure State (K : Type) where
  ray : Ray K
  samplingRate : K
  lastSample : K
  tSkipped : K
  intervalColor : Vec4 K
  singleMax : K
  singleCoordinates : Vec3 K
  visited : List K
  lookups : List (K × K)
  previous : Option (K × K)

/-- The opacity so far. -/
def State.alpha (state : State K) : K := state.intervalColor 3

variable [Field K] [LinearOrder K] (call : Arguments K)

/-- `clamp` of one argument -/
def clamp (value : K) : K := max 0 (min value 1)

/-- A quotient. -/
def Arguments.quotient (value divisor : K) : K :=
  if divisor = 0 then call.overZero value else value / divisor

omit [LinearOrder K] in
/-- `maxSamplingRate` -/
def Arguments.maxSamplingRate : K := call.volume.adaptiveMaxSamplingRate * call.quality

/-- `adaptiveScalar * sampleOpacity * quality`, limited by the largest rate. -/
def Arguments.adaptedRate (sampleOpacity : K) : K :=
  min (call.volume.adaptiveScalar * call.quality * sampleOpacity * call.quality) call.maxSamplingRate

/-- The variables when the loop starts. -/
def Arguments.start : State K :=
  let samplingRate := call.volume.samplingRate * call.quality
  let ray := { call.ray with t0 := call.tBegin }
  { ray := call.volume.stepRay ray (if call.volume.adaptiveSampling then samplingRate else call.volume.samplingRate)
    samplingRate := samplingRate
    lastSample := -1
    tSkipped := -1
    intervalColor := 0
    singleMax := -1
    singleCoordinates := call.uninitialized
    visited := []
    lookups := []
    previous := none }

/-- The ray goes back, to step on with a higher rate. -/
def Arguments.backtrack (newSamplingRate : K) (state : State K) : State K :=
  let back := max (max (state.ray.t0 - max state.ray.time call.volume.samplingStep) state.tSkipped)
    (call.tBegin + call.volumeEpsilon)
  { state with
    samplingRate := newSamplingRate
    ray := call.volume.stepRay { state.ray with t0 := back } newSamplingRate
    tSkipped := state.ray.t0
    lastSample := -1
    previous := none }

/-- The color of a sample, which is looked up and shaded for rays that are no shadow rays. -/
def Arguments.shadeSample (coordinates : Vec3 K) (sample sampleOpacity : K) (state : State K) : Vec3 K × State K :=
  if call.isShadowRay then (call.uninitialized, state)
  else
    let sampleColor := call.volume.getIntegratedColorForValue state.lastSample sample
    let state := { state with lastSample := sample }
    if call.volume.gradientShadingEnabled then
      if call.volume.singleShade ∧ sampleOpacity * (1 - state.alpha) > state.singleMax ∧ sampleOpacity > 1 / 100 then
        (sampleColor, { state with
          singleMax := sampleOpacity * (1 - state.alpha)
          singleCoordinates := coordinates })
      else if !call.volume.singleShade then (call.shade state.ray coordinates sampleColor, state)
      else (sampleColor, state)
    else (sampleColor, state)

/-- The rest of a pass: the sample is shaded and added, and the ray steps on. -/
def Arguments.composite (coordinates : Vec3 K) (sample sampleOpacity : K) (state : State K) : State K :=
  let shaded := call.shadeSample coordinates sample sampleOpacity state
  let sampleColor := shaded.1
  let state := shaded.2
  if call.volume.adaptiveSampling then
    let dt := call.quotient 1 (call.quotient state.ray.time call.volume.samplingStep)
    let contribution : Vec4 K := fun c =>
      clamp (call.quotient sampleOpacity dt) * ![sampleColor 0, sampleColor 1, sampleColor 2, 1] c
    let samplingRate :=
      if state.ray.t0 > state.tSkipped then
        max (call.adaptedRate sampleOpacity) (call.volume.samplingRate * call.quality)
      else state.samplingRate
    { state with
      intervalColor := fun c => state.intervalColor c + (1 - state.alpha) * contribution c
      samplingRate := samplingRate
      ray := call.volume.stepRay state.ray samplingRate }
  else
    let contribution : Vec4 K := fun c =>
      clamp (call.quotient sampleOpacity call.volume.samplingRate) *
        ![sampleColor 0, sampleColor 1, sampleColor 2, 1] c
    { state with
      intervalColor := fun c => state.intervalColor c + (1 - state.alpha) * contribution c
      ray := call.volume.stepRay state.ray call.volume.samplingRate }

/-- The value that a sample is looked up with. -/
def paired (lastSample sample : K) : K := if lastSample = -1 then sample else lastSample

omit [LinearOrder K] in
/-- The place of a ray. -/
def Arguments.coordinates (t0 : K) : Vec3 K := fun axis => call.org axis + t0 * call.dir axis

/-- A pass with a sample. -/
def Arguments.takeSample (sample : K) (state : State K) : State K :=
  let coordinates := call.coordinates state.ray.t0
  let lastSample := paired state.lastSample sample
  let sampleOpacity := call.volume.getIntegratedOpacityForValue lastSample sample
  let state := { state with
    lastSample := lastSample
    lookups := (lastSample, sample) :: state.lookups
    previous := some (lastSample, sample) }
  if call.volume.adaptiveSampling ∧ sampleOpacity > call.volume.adaptiveBacktrack ∧ state.ray.t0 > state.tSkipped then
    let newSamplingRate := call.adaptedRate sampleOpacity
    if newSamplingRate > state.samplingRate + 1 / 100 then call.backtrack newSamplingRate state
    else call.composite coordinates sample sampleOpacity { state with tSkipped := state.ray.t0 }
  else call.composite coordinates sample sampleOpacity state

/-- A pass through the loop. -/
def Arguments.pass (state : State K) : Pass (State K) :=
  if state.ray.t0 < call.tEnd ∧ state.alpha < call.maxOpacity then
    let visiting := { state with visited := state.ray.t0 :: state.visited }
    match call.volume.sample (call.coordinates state.ray.t0) with
    | none => .again { visiting with ray := call.volume.stepRay state.ray call.volume.samplingRate }
    | some sample => .again (call.takeSample sample visiting)
  else .leave state

/-- What is returned behind the loop. -/
def Arguments.finish (state : State K) : Vec4 K :=
  if !call.isShadowRay ∧ call.volume.gradientShadingEnabled ∧ call.volume.singleShade ∧ state.singleMax ≥ 1 / 100 then
    let litColor := call.shadeSingle state.ray state.singleCoordinates state.intervalColor state.singleMax
    ![litColor 0, litColor 1, litColor 2, state.alpha]
  else state.intervalColor

/-- `SciVisRenderer_computeVolumeInterval`, for at most `fuel` passes. -/
def Arguments.computeVolumeInterval (fuel : Nat) : Option (Vec4 K) :=
  (loop call.pass fuel call.start).map call.finish

end Ospray.VolumeInterval
