import Ospray.Library.Runs
import Ospray.Library.Tables
import Ospray.Fb.Tile
import Mathlib.Algebra.Group.Basic
import Mathlib.Algebra.Order.Field.Rat
import Mathlib.Logic.Function.Basic

/-!
# Densities of geometry lights

The path tracer samples emissive geometries as lights. A commit walks the
model, creates a light for each geometry that it can sample, and stores the
density of the light with respect to area in a table: one table belongs to the
renderer and one to each instance, indexed by the geometry. When a path hits an
emissive surface, the tracer reads the table again to weight the hit against
the sampling of the light.

The tables outlive a commit, and the walk writes only the entries of geometries
it samples. So a hit reads what the current lights say exactly when the walk
wrote its entry, or the entry was zero before. The last theorem says this for
every history of edits and commits.
-/

namespace Ospray.GeometryLights

open Library.Tables

/-! ## The world -/

/-- `PathTraceMaterial`, as far as lights are concerned. -/
structure PathTraceMaterial (K : Type) where
  emission : Vec3 K

/-- What a geometry tells about one primitive: `getMaterialID`, which the light
uses, and `dg.materialID`, which `postIntersect` reports for a hit. -/
structure Primitive where
  getMaterialID : Int
  hitMaterialID : Int

/-- `Geometry`: its materials, some of which may be null, and the functions for
area sampling, which a geometry need not have. `getAreas` gives the area of a
primitive under a transformation. No list of materials is an empty one. -/
structure Geometry (K X : Type) where
  materialList : List (Option (PathTraceMaterial K))
  primitives : List Primitive
  sampleArea : Bool
  getAreas : Option (Nat → X → K)

/-- `Instance`: a transformed model. Its own materials replace those of a hit
geometry. -/
structure Instance (K X : Type) where
  xfm : X
  instancedScene : List (Geometry K X)
  materialList : List (Option (PathTraceMaterial K))

/-- An element of `Model::geometry`: a geometry, or a reference to an instance. -/
inductive ModelGeometry (K X : Type) where
  | regular (geo : Geometry K X)
  | inst (id : Nat)

/-- What the application controls: the model of the renderer, the instances and
the parameters of the path tracer. -/
structure World (K X : Type) where
  model : Option (List (ModelGeometry K X))
  instances : Nat → Instance K X
  useGeometryLights : Bool
  lights : List Nat
  maxDepth : Nat

variable {K X : Type}

/-- The material with an ID in a list; negative IDs denote the first one. There
is none if the list is too short or has a null pointer there. -/
def materialAt (materialList : List (Option (PathTraceMaterial K))) (materialID : Int) :
    Option (PathTraceMaterial K) :=
  (materialList[if materialID < 0 then 0 else materialID.toNat]?).join

section Emission

variable [Zero K] [LinearOrder K]

/-- `PathTraceMaterial_isEmissive` -/
def PathTraceMaterial.isEmissive (mat : PathTraceMaterial K) : Bool :=
  0 < max (max (mat.emission 0) (mat.emission 1)) (mat.emission 2)

/-- `hasEmissive`: whether the geometry has any emissive materials. -/
def Geometry.hasEmissive (geo : Geometry K X) : Bool :=
  geo.materialList.any fun mat => mat.any PathTraceMaterial.isEmissive

/-- `GeometryLight_isSupported` -/
def Geometry.isSupported (geo : Geometry K X) : Bool := geo.sampleArea && geo.getAreas.isSome

/-- The geometries for which the walk calls `GeometryLight_create`. -/
def Geometry.Sampled (geo : Geometry K X) : Prop := geo.hasEmissive ∧ geo.isSupported

instance (geo : Geometry K X) : Decidable geo.Sampled := inferInstanceAs (Decidable (_ ∧ _))

/-- One primitive in the loop of `GeometryLight_create`: its material is
dereferenced, so it must be there. -/
def collectPrim (materialList : List (Option (PathTraceMaterial K))) (primIDs : List Nat)
    (prim : Primitive × Nat) : Option (List Nat) := do
  let mat ← materialAt materialList prim.1.getMaterialID
  return if mat.isEmissive then primIDs ++ [prim.2] else primIDs

/-- The list of emissive primitive IDs. -/
def emissivePrimIDs (geo : Geometry K X) : Option (List Nat) :=
  geo.primitives.zipIdx.foldlM (collectPrim geo.materialList) []

end Emission

/-! ## Generating the lights -/

/-- `GeometryLight`, without what only its sampling reads. -/
structure GeometryLight (K X : Type) where
  geo : Geometry K X
  xfm : X
  primIDs : List Nat
  pdf : K

/-- An element of `lightArray`: a generated light or one of the application's. -/
inductive Light (K X : Type) where
  | geometry (light : GeometryLight K X)
  | user (id : Nat)

/-- The vectors named `areaPDF`: that of the renderer and those of the instances. -/
inductive Table where
  | renderer
  | inst (id : Nat)
deriving DecidableEq

/-- A geometry in its place, and the entry that holds its density. -/
structure Site (K X : Type) where
  table : Table
  index : Nat
  xfm : X
  geo : Geometry K X

/-- What the walk through the model changes. -/
structure Walk (K X : Type) where
  areaPDF : Table → List K
  lightArray : List (Light K X)

section Operations

variable [Zero K] [One K] [Add K] [Div K] [LinearOrder K]

/-- `Distribution1D_create`: the sum of the values, which the caller uses. -/
def distribution1DCreate : List K → K
  | [] => 0
  | value :: rest => rest.foldl (· + ·) value

/-- `GeometryLight_create`: the light, if there is one, and what is stored in
`*areaPDF`. -/
def geometryLightCreate (geo : Geometry K X) (xfm : X) : Option (Option (GeometryLight K X) × K) :=
  match geo.sampleArea, geo.getAreas with
  | true, some getAreas => do
    let primIDs ← emissivePrimIDs geo
    if primIDs = [] then
      return (none, 0)
    let pdf := 1 / distribution1DCreate (primIDs.map fun primID => getAreas primID xfm)
    return (some ⟨geo, xfm, primIDs, pdf⟩, pdf)
  | _, _ => return (none, 0)

/-- The body of the loop in `generateGeometryLights` for a geometry that is not
an instance. An emissive geometry without area sampling only leaves a message. -/
def visitGeometry (walk : Walk K X) (site : Site K X) : Option (Walk K X) :=
  if site.geo.hasEmissive then
    if site.geo.isSupported then do
      let (light, pdf) ← geometryLightCreate site.geo site.xfm
      let areaPDF ← store walk.areaPDF site.table site.index pdf
      return ⟨areaPDF, match light with
        | some light => walk.lightArray ++ [.geometry light]
        | none => walk.lightArray⟩
    else some walk
  else some walk

variable [MulOneClass X]

/-- `generateGeometryLights` for a model that is instanced. -/
def generateInstanced (scene : List (Geometry K X)) (xfm : X) (table : Table) (walk : Walk K X) :
    Option (Walk K X) :=
  scene.zipIdx.foldlM (fun walk (geo, i) => visitGeometry walk ⟨table, i, xfm, geo⟩) walk

/-- `generateGeometryLights` for the model of the renderer. -/
def generateGeometryLights (instances : Nat → Instance K X) (model : List (ModelGeometry K X))
    (xfm : X) (walk : Walk K X) : Option (Walk K X) :=
  model.zipIdx.foldlM (fun walk (entry, i) =>
    match entry with
    | .inst id =>
      generateInstanced (instances id).instancedScene (xfm * (instances id).xfm) (.inst id) walk
    | .regular geo => visitGeometry walk ⟨.renderer, i, xfm, geo⟩) walk

end Operations

/-! ## The path tracer -/

/-- The path tracer with the vectors of the instances. -/
structure PathTracer (K X : Type) where
  world : World K X
  areaPDF : Table → List K
  lightArray : List (Light K X)
  geometryLights : Nat

/-- A history: the application edits the world, `Instance::finalize` runs (when
a model that contains the instance is committed), the renderer is committed. -/
inductive Event (K X : Type) where
  | edit (world : World K X)
  | finalize (id : Nat)
  | commit

/-- A hit as the ray reports it: `instID` is negative (here none) for a regular
geometry. -/
structure Hit where
  instID : Option Nat
  geomID : Nat
  primID : Nat

section Tracer

variable [Zero K] [One K] [Add K] [Div K] [LinearOrder K] [MulOneClass X]

/-- `PathTracer::commit` -/
def PathTracer.commit (state : PathTracer K X) : Option (PathTracer K X) :=
  match state.world.model, state.world.useGeometryLights with
  | some model, true => do
    let areaPDF := Function.update state.areaPDF .renderer
      (resize 0 (state.areaPDF .renderer) model.length)
    let walk ← generateGeometryLights state.world.instances model 1 ⟨areaPDF, []⟩
    return { state with
      areaPDF := walk.areaPDF
      lightArray := walk.lightArray ++ state.world.lights.map .user
      geometryLights := walk.lightArray.length }
  | _, _ => return { state with
      lightArray := state.world.lights.map .user
      geometryLights := 0 }

/-- One event of a history. -/
def PathTracer.step (state : PathTracer K X) : Event K X → Option (PathTracer K X)
  | .edit world => some { state with world := world }
  | .finalize id => some { state with
      areaPDF := Function.update state.areaPDF (.inst id) (resize 0 (state.areaPDF (.inst id))
        (state.world.instances id).instancedScene.length) }
  | .commit => state.commit

/-- The geometry that a hit is on, where it is placed, and the entry that `Li`
reads for it. -/
def World.hitSite (world : World K X) (hit : Hit) : Option (Site K X) := do
  let model ← world.model
  match hit.instID with
  | none =>
    match ← model[hit.geomID]? with
    | .regular geo => return ⟨.renderer, hit.geomID, 1, geo⟩
    | .inst _ => none
  | some instID =>
    match ← model[instID]? with
    | .regular _ => none
    | .inst id =>
      let geo ← (world.instances id).instancedScene[hit.geomID]?
      return ⟨.inst id, hit.geomID, (world.instances id).xfm, geo⟩

/-- `postIntersect`: the material of a hit. The list of the instance, if it has
one, replaces that of the geometry. -/
def World.hitMaterial (world : World K X) (hit : Hit) : Option (PathTraceMaterial K) := do
  let site ← world.hitSite hit
  let prim ← site.geo.primitives[hit.primID]?
  match site.table with
  | .renderer => materialAt site.geo.materialList prim.hitMaterialID
  | .inst id =>
    if (world.instances id).materialList = []
    then materialAt site.geo.materialList prim.hitMaterialID
    else materialAt (world.instances id).materialList prim.hitMaterialID

end Tracer

/-! ## What a hit should find -/

section Densities

variable [Zero K] [One K] [Add K] [Div K] [LinearOrder K] [MulOneClass X]

/-- The hit has an emissive material. -/
def World.EmissiveHit (world : World K X) (hit : Hit) : Prop :=
  ∃ mat, world.hitMaterial hit = some mat ∧ mat.isEmissive

/-- At some depth of a path `Li` goes on to evaluate the emission of a hit. -/
def PathTracer.EvaluatesHits (state : PathTracer K X) : Prop :=
  0 < state.world.maxDepth ∨ 0 < state.geometryLights

/-- The density that `Li` reads for a hit, if the entry exists. -/
def PathTracer.areaPdf (state : PathTracer K X) (hit : Hit) : Option K := do
  let site ← state.world.hitSite hit
  (state.areaPDF site.table)[site.index]?

/-- `lightArray` contains the light, and it is one for the geometry in its place. -/
def PathTracer.LightFor (state : PathTracer K X) (site : Site K X) (light : GeometryLight K X) :
    Prop :=
  .geometry light ∈ state.lightArray ∧ light.geo = site.geo ∧ light.xfm = site.xfm

/-- For every emissive hit that is evaluated, the entry exists and is the density
of the light for the geometry, or zero if there is no such light. -/
def PathTracer.Consistent (state : PathTracer K X) : Prop :=
  ∀ hit site, state.world.hitSite hit = some site → state.world.EmissiveHit hit →
    state.EvaluatesHits → ∃ pdf, state.areaPdf hit = some pdf ∧
      (∀ light, state.LightFor site light → light.pdf = pdf) ∧
      ((¬ ∃ light, state.LightFor site light) → pdf = 0)

/-! ## The walk in advance -/

/-- The geometries of a model, each in its place. -/
def World.sites (world : World K X) (model : List (ModelGeometry K X)) : List (Site K X) :=
  model.zipIdx.flatMap fun (entry, i) =>
    match entry with
    | .inst id => (world.instances id).instancedScene.zipIdx.map fun (geo, j) =>
        ⟨.inst id, j, (world.instances id).xfm, geo⟩
    | .regular geo => [⟨.renderer, i, 1, geo⟩]

/-- The geometries that the walk of a commit visits. -/
def World.walked (world : World K X) : List (Site K X) :=
  match world.model, world.useGeometryLights with
  | some model, true => world.sites model
  | _, _ => []

/-- The tables when the walk begins: that of the renderer has been resized. -/
def PathTracer.entries (state : PathTracer K X) : Table → List K :=
  match state.world.model, state.world.useGeometryLights with
  | some model, true => Function.update state.areaPDF .renderer
      (resize 0 (state.areaPDF .renderer) model.length)
  | _, _ => state.areaPDF

/-- A primitive with an emissive material, as the light sees it. -/
def Geometry.HasEmissivePrim (geo : Geometry K X) : Prop :=
  ∃ prim ∈ geo.primitives, ∃ mat,
    materialAt geo.materialList prim.getMaterialID = some mat ∧ mat.isEmissive

/-- The condition on the state before a commit. -/
structure PathTracer.Ready (state : PathTracer K X) : Prop where
  /-- The primitives of a sampled geometry have materials. -/
  materials : ∀ site ∈ state.world.walked, site.geo.Sampled →
    ∀ prim ∈ site.geo.primitives, (materialAt site.geo.materialList prim.getMaterialID).isSome
  /-- The table has an entry for a sampled geometry. -/
  room : ∀ site ∈ state.world.walked, site.geo.Sampled →
    site.index < (state.entries site.table).length
  /-- If hits are evaluated, an emissive hit is on a sampled geometry, or its entry
  is there and zero. -/
  clear : (0 < state.world.maxDepth ∨
      ∃ site ∈ state.world.walked, site.geo.Sampled ∧ site.geo.HasEmissivePrim) →
    ∀ hit site, state.world.hitSite hit = some site → state.world.EmissiveHit hit →
      (site ∈ state.world.walked ∧ site.geo.Sampled) ∨
        (state.entries site.table)[site.index]? = some 0

end Densities

/-! ## The lights of one geometry -/

section Creation

variable [Zero K] [LinearOrder K] {materialList : List (Option (PathTraceMaterial K))}

theorem collectPrims_isSome (prims : List (Primitive × Nat)) (found : List Nat) :
    (prims.foldlM (collectPrim materialList) found).isSome ↔
      ∀ prim ∈ prims, (materialAt materialList prim.1.getMaterialID).isSome := by
  induction prims generalizing found with
  | nil => simp
  | cons prim rest inductionHypothesis =>
    rw [List.foldlM_cons, List.forall_mem_cons]
    cases looked : materialAt materialList prim.1.getMaterialID with
    | none => simp [collectPrim, looked]
    | some mat => simpa [collectPrim, looked] using inductionHypothesis _

/-- The loop finds something if it had before, or there is an emissive primitive. -/
theorem collectPrims_found {prims : List (Primitive × Nat)} {found primIDs : List Nat}
    (collected : prims.foldlM (collectPrim materialList) found = some primIDs) :
    primIDs ≠ [] ↔ found ≠ [] ∨ ∃ prim ∈ prims, ∃ mat,
      materialAt materialList prim.1.getMaterialID = some mat ∧ mat.isEmissive := by
  induction prims generalizing found with
  | nil =>
    obtain rfl : found = primIDs := Option.some.inj collected
    simp
  | cons prim rest inductionHypothesis =>
    rw [List.foldlM_cons] at collected
    obtain ⟨next, here, later⟩ := Option.bind_eq_some_iff.mp collected
    obtain ⟨mat, looked, rfl⟩ : ∃ mat, materialAt materialList prim.1.getMaterialID = some mat ∧
        (if mat.isEmissive then found ++ [prim.2] else found) = next := by
      simpa [collectPrim, Option.bind_eq_some_iff] using here
    rw [inductionHypothesis later]
    by_cases emissive : mat.isEmissive
    · exact iff_of_true (Or.inl (by simp [emissive]))
        (Or.inr ⟨prim, List.mem_cons_self, mat, looked, emissive⟩)
    · simp [emissive, looked]

variable {geo : Geometry K X}

theorem emissivePrimIDs_isSome : (emissivePrimIDs geo).isSome ↔
    ∀ prim ∈ geo.primitives, (materialAt geo.materialList prim.getMaterialID).isSome := by
  rw [emissivePrimIDs, collectPrims_isSome]
  constructor
  · intro looked prim member
    obtain ⟨index, place⟩ := List.getElem?_of_mem member
    exact looked (prim, index) (List.mem_zipIdx_iff_getElem?.mpr place)
  · intro looked prim member
    exact looked prim.1 (List.mem_of_getElem? (List.mem_zipIdx_iff_getElem?.mp member))

theorem emissivePrimIDs_ne_nil {primIDs : List Nat} (collected : emissivePrimIDs geo = some primIDs) :
    primIDs ≠ [] ↔ geo.HasEmissivePrim := by
  rw [collectPrims_found collected, Geometry.HasEmissivePrim]
  constructor
  · rintro (started | ⟨prim, member, shines⟩)
    · exact absurd rfl started
    · exact ⟨prim.1, List.mem_of_getElem? (List.mem_zipIdx_iff_getElem?.mp member), shines⟩
  · rintro ⟨prim, member, shines⟩
    obtain ⟨index, place⟩ := List.getElem?_of_mem member
    exact .inr ⟨(prim, index), List.mem_zipIdx_iff_getElem?.mpr place, shines⟩

end Creation

section Lights

variable [Zero K] [One K] [Add K] [Div K] [LinearOrder K] {geo : Geometry K X} {xfm : X}

/-- Creating a light for a geometry with area sampling is defined if its
primitives have materials. -/
theorem create_isSome (supported : geo.isSupported) : (geometryLightCreate geo xfm).isSome ↔
    ∀ prim ∈ geo.primitives, (materialAt geo.materialList prim.getMaterialID).isSome := by
  obtain ⟨sampleArea, getAreas⟩ := (Bool.and_eq_true _ _).mp supported
  obtain ⟨areas, present⟩ := Option.isSome_iff_exists.mp getAreas
  rw [← emissivePrimIDs_isSome, geometryLightCreate, sampleArea, present]
  cases emissivePrimIDs geo with
  | none => rfl
  | some primIDs => by_cases empty : primIDs = [] <;> simp [empty]

/-- What is created: a light for the geometry, whose density is stored, or no
light and zero. There is a light if there is an emissive primitive. -/
theorem create_spec (supported : geo.isSupported) {light : Option (GeometryLight K X)} {pdf : K}
    (created : geometryLightCreate geo xfm = some (light, pdf)) :
    (light.isSome ↔ geo.HasEmissivePrim) ∧ (light = none → pdf = 0) ∧
      ∀ made, light = some made → made.geo = geo ∧ made.xfm = xfm ∧ made.pdf = pdf := by
  obtain ⟨sampleArea, getAreas⟩ := (Bool.and_eq_true _ _).mp supported
  obtain ⟨areas, present⟩ := Option.isSome_iff_exists.mp getAreas
  rw [geometryLightCreate, sampleArea, present] at created
  obtain ⟨primIDs, collected, made⟩ := Option.bind_eq_some_iff.mp created
  rw [← emissivePrimIDs_ne_nil collected]
  by_cases empty : primIDs = []
  · rw [if_pos empty] at made
    obtain ⟨rfl, rfl⟩ := Prod.mk.inj (Option.some.inj made)
    exact ⟨by simp [empty], fun _ => rfl, fun _ absent => (Option.some_ne_none _ absent.symm).elim⟩
  · rw [if_neg empty] at made
    obtain ⟨rfl, rfl⟩ := Prod.mk.inj (Option.some.inj made)
    refine ⟨by simp [empty], fun absent => (Option.some_ne_none _ absent).elim, ?_⟩
    rintro _ ⟨⟩
    exact ⟨rfl, rfl, rfl⟩

/-! ## The walk -/

/-- The write that a visit makes. -/
def Site.write (site : Site K X) : Option (Write Table K) :=
  if site.geo.Sampled
  then (geometryLightCreate site.geo site.xfm).map fun made => (site.table, site.index, made.2)
  else none

/-- The light that a visit appends. -/
def Site.light (site : Site K X) : Option (Light K X) :=
  if site.geo.Sampled
  then (geometryLightCreate site.geo site.xfm).bind fun made => made.1.map .geometry
  else none

theorem visitGeometry_unsampled {walk : Walk K X} {site : Site K X} (other : ¬ site.geo.Sampled) :
    visitGeometry walk site = some walk := by
  unfold visitGeometry
  split
  · next emissive =>
    split
    · next supported => exact absurd ⟨emissive, supported⟩ other
    · rfl
  · rfl

theorem visitGeometry_sampled {walk : Walk K X} {site : Site K X} (sampled : site.geo.Sampled)
    {light : Option (GeometryLight K X)} {pdf : K}
    (created : geometryLightCreate site.geo site.xfm = some (light, pdf)) :
    visitGeometry walk site = (store walk.areaPDF site.table site.index pdf).map fun areaPDF =>
      ⟨areaPDF, walk.lightArray ++ (light.map .geometry).toList⟩ := by
  rw [visitGeometry, if_pos sampled.1, if_pos sampled.2, created]
  cases light with
  | none => simp [Option.map_eq_bind]
  | some light => simp [Option.map_eq_bind]

theorem visits_creatable {sites : List (Site K X)} {walk final : Walk K X}
    (ran : sites.foldlM visitGeometry walk = some final) :
    ∀ site ∈ sites, site.geo.Sampled → (geometryLightCreate site.geo site.xfm).isSome := by
  induction sites generalizing walk with
  | nil => simp
  | cons site rest inductionHypothesis =>
    rw [List.foldlM_cons] at ran
    obtain ⟨next, visited, later⟩ := Option.bind_eq_some_iff.mp ran
    refine List.forall_mem_cons.mpr ⟨?_, inductionHypothesis later⟩
    intro sampled
    rw [visitGeometry, if_pos sampled.1, if_pos sampled.2] at visited
    obtain ⟨made, created, -⟩ := Option.bind_eq_some_iff.mp visited
    exact Option.isSome_of_eq_some created

/-- If the lights can be created, the walk makes the writes of its visits one
after another, and appends their lights. -/
theorem visits_eq {sites : List (Site K X)} (walk : Walk K X)
    (creatable : ∀ site ∈ sites, site.geo.Sampled →
      (geometryLightCreate site.geo site.xfm).isSome) :
    sites.foldlM visitGeometry walk =
      (storeAll (sites.filterMap Site.write) walk.areaPDF).map fun areaPDF =>
        ⟨areaPDF, walk.lightArray ++ sites.filterMap Site.light⟩ := by
  induction sites generalizing walk with
  | nil => simp [storeAll]
  | cons site rest inductionHypothesis =>
    obtain ⟨creatableHere, creatableLater⟩ := List.forall_mem_cons.mp creatable
    rw [List.foldlM_cons]
    by_cases sampled : site.geo.Sampled
    · obtain ⟨⟨light, pdf⟩, created⟩ := Option.isSome_iff_exists.mp (creatableHere sampled)
      have write : site.write = some (site.table, site.index, pdf) := by
        simp [Site.write, sampled, created]
      have appended : site.light = light.map .geometry := by simp [Site.light, sampled, created]
      rw [visitGeometry_sampled sampled created, List.filterMap_cons_some write, storeAll_cons]
      cases stored : store walk.areaPDF site.table site.index pdf with
      | none => rfl
      | some areaPDF =>
        change rest.foldlM visitGeometry _ = _
        rw [inductionHypothesis _ creatableLater]
        cases light with
        | none => simp [appended]
        | some light => simp [appended]
    · have write : site.write = none := if_neg sampled
      have appended : site.light = none := if_neg sampled
      rw [visitGeometry_unsampled sampled, List.filterMap_cons_none write,
        List.filterMap_cons_none appended]
      exact inductionHypothesis walk creatableLater

theorem creatable_iff {sites : List (Site K X)} :
    (∀ site ∈ sites, site.geo.Sampled → (geometryLightCreate site.geo site.xfm).isSome) ↔
      ∀ site ∈ sites, site.geo.Sampled → ∀ prim ∈ site.geo.primitives,
        (materialAt site.geo.materialList prim.getMaterialID).isSome :=
  forall₂_congr fun _ _ => forall_congr' fun sampled => create_isSome sampled.2

/-- If lights can be created, the walk writes to the entries of the sampled geometries. -/
theorem writes_inside {sites : List (Site K X)} {vectors : Table → List K}
    (creatable : ∀ site ∈ sites, site.geo.Sampled →
      (geometryLightCreate site.geo site.xfm).isSome) :
    (∀ write ∈ sites.filterMap Site.write, write.2.1 < (vectors write.1).length) ↔
      ∀ site ∈ sites, site.geo.Sampled → site.index < (vectors site.table).length := by
  constructor
  · intro inside site member sampled
    obtain ⟨made, created⟩ := Option.isSome_iff_exists.mp (creatable site member sampled)
    have write : site.write = some (site.table, site.index, made.2) := by
      simp [Site.write, sampled, created]
    exact inside _ (List.mem_filterMap.mpr ⟨site, member, write⟩)
  · rintro room write listed
    obtain ⟨site, member, written⟩ := List.mem_filterMap.mp listed
    obtain ⟨sampled, made, created, rfl⟩ : site.geo.Sampled ∧ ∃ made,
        geometryLightCreate site.geo site.xfm = some made ∧
          (site.table, site.index, made.2) = write := by
      simpa [Site.write] using written
    exact room site member sampled

theorem light_iff {site : Site K X} {light : Light K X} : site.light = some light ↔
    site.geo.Sampled ∧ ∃ made pdf,
      geometryLightCreate site.geo site.xfm = some (some made, pdf) ∧ .geometry made = light := by
  unfold Site.light
  split
  · next sampled => simp [sampled, Option.bind_eq_some_iff]
  · next other => simp [other]

end Lights

/-! ## The geometries of the model -/

section Sites

variable [MulOneClass X] {world : World K X} {model : List (ModelGeometry K X)} {site : Site K X}

/-- The geometries of a model are its regular ones and those of its instances. -/
theorem mem_sites : site ∈ world.sites model ↔
    (∃ i geo, model[i]? = some (ModelGeometry.regular geo) ∧ site = ⟨.renderer, i, 1, geo⟩) ∨
    ∃ (i id j : Nat) (geo : Geometry K X), model[i]? = some (ModelGeometry.inst id) ∧
      (world.instances id).instancedScene[j]? = some geo ∧
      site = ⟨.inst id, j, (world.instances id).xfm, geo⟩ := by
  rw [World.sites, List.mem_flatMap]
  constructor
  · rintro ⟨⟨entry, i⟩, listed, member⟩
    rw [List.mem_zipIdx_iff_getElem?] at listed
    cases entry with
    | regular geo => exact .inl ⟨i, geo, listed, List.mem_singleton.mp member⟩
    | inst id =>
      obtain ⟨⟨geo, j⟩, place, rfl⟩ := List.mem_map.mp member
      exact .inr ⟨i, id, j, geo, listed, List.mem_zipIdx_iff_getElem?.mp place, rfl⟩
  · rintro (⟨i, geo, listed, rfl⟩ | ⟨i, id, j, geo, listed, place, rfl⟩)
    · exact ⟨(.regular geo, i), List.mem_zipIdx_iff_getElem?.mpr listed, List.mem_singleton_self _⟩
    · exact ⟨(.inst id, i), List.mem_zipIdx_iff_getElem?.mpr listed,
        List.mem_map.mpr ⟨(geo, j), List.mem_zipIdx_iff_getElem?.mpr place, rfl⟩⟩

/-- Geometries with the same entry are the same, in the same place. -/
theorem sites_entry {other : Site K X} (member : site ∈ world.sites model)
    (otherMember : other ∈ world.sites model)
    (same : site.table = other.table ∧ site.index = other.index) : site = other := by
  obtain ⟨sameTable, sameIndex⟩ := same
  obtain ⟨i, geo, listed, rfl⟩ | ⟨i, id, j, geo, listed, place, rfl⟩ := mem_sites.mp member <;>
    obtain ⟨i', geo', listed', rfl⟩ | ⟨i', id', j', geo', listed', place', rfl⟩ :=
      mem_sites.mp otherMember
  · obtain rfl : i = i' := sameIndex
    obtain rfl : geo = geo' :=
      (ModelGeometry.regular.inj (Option.some.inj (listed.symm.trans listed')))
    rfl
  · cases sameTable
  · cases sameTable
  · obtain rfl : id = id' := Table.inst.inj sameTable
    obtain rfl : j = j' := sameIndex
    obtain rfl : geo = geo' := Option.some.inj (place.symm.trans place')
    rfl

theorem hitSite_mem {hit : Hit} (present : world.model = some model)
    (struck : world.hitSite hit = some site) : site ∈ world.sites model := by
  rw [World.hitSite, present, Option.bind_eq_bind, Option.bind_some] at struck
  rw [mem_sites]
  cases instanced : hit.instID with
  | none =>
    rw [instanced] at struck
    obtain ⟨entry, listed, found⟩ := Option.bind_eq_some_iff.mp struck
    cases entry with
    | regular geo => exact .inl ⟨hit.geomID, geo, listed, (Option.some.inj found).symm⟩
    | inst id => cases found
  | some instID =>
    rw [instanced] at struck
    obtain ⟨entry, listed, found⟩ := Option.bind_eq_some_iff.mp struck
    cases entry with
    | regular geo => cases found
    | inst id =>
      obtain ⟨geo, place, rest⟩ := Option.bind_eq_some_iff.mp found
      exact .inr ⟨instID, id, hit.geomID, geo, listed, place, (Option.some.inj rest).symm⟩

theorem hitSite_walked {hit : Hit} (struck : world.hitSite hit = some site) :
    site ∈ world.walked ∨ world.walked = [] := by
  unfold World.walked
  cases present : world.model with
  | none => exact .inr rfl
  | some model =>
    cases world.useGeometryLights with
    | false => exact .inr rfl
    | true => exact .inl (hitSite_mem present struck)

/-- Visited geometries with the same entry are the same, in the same place. -/
theorem walked_entry {other : Site K X} (member : site ∈ world.walked)
    (otherMember : other ∈ world.walked)
    (same : site.table = other.table ∧ site.index = other.index) : site = other := by
  unfold World.walked at member otherMember
  cases present : world.model with
  | none =>
    rw [present] at member
    cases member
  | some model =>
    rw [present] at member otherMember
    cases used : world.useGeometryLights with
    | false =>
      rw [used] at member
      cases member
    | true =>
      rw [used] at member otherMember
      exact sites_entry member otherMember same

end Sites

section Commit

variable [Zero K] [One K] [Add K] [Div K] [LinearOrder K] [MulOneClass X]
variable {world : World K X} {model : List (ModelGeometry K X)}

theorem generate_eq (walk : Walk K X) :
    generateGeometryLights world.instances model 1 walk =
      (world.sites model).foldlM visitGeometry walk := by
  rw [generateGeometryLights, World.sites, Library.Runs.calls_flatMap]
  congr 1
  funext walk entry
  obtain ⟨geo | id, i⟩ := entry
  · exact (Option.bind_fun_some _).symm
  · change generateInstanced _ (1 * _) _ walk = _
    rw [List.foldlM_map, generateInstanced, one_mul]

/-- A commit prepares the tables, walks, and appends the lights of the application. -/
theorem commit_eq (state : PathTracer K X) :
    state.commit = (state.world.walked.foldlM visitGeometry ⟨state.entries, []⟩).map fun walk =>
      { state with
        areaPDF := walk.areaPDF
        lightArray := walk.lightArray ++ state.world.lights.map .user
        geometryLights := walk.lightArray.length } := by
  unfold PathTracer.commit World.walked PathTracer.entries
  cases state.world.model with
  | none => rfl
  | some model =>
    cases state.world.useGeometryLights with
    | false => rfl
    | true =>
      change (generateGeometryLights state.world.instances model 1 _).bind _ = _
      rw [generate_eq, Option.map_eq_bind]
      rfl

variable {state next : PathTracer K X}

/-- A commit is defined if the sampled geometries have materials and entries. -/
theorem commit_isSome : state.commit.isSome ↔
    (∀ site ∈ state.world.walked, site.geo.Sampled → ∀ prim ∈ site.geo.primitives,
      (materialAt site.geo.materialList prim.getMaterialID).isSome) ∧
    ∀ site ∈ state.world.walked, site.geo.Sampled →
      site.index < (state.entries site.table).length := by
  rw [commit_eq, Option.isSome_map, ← creatable_iff]
  constructor
  · intro ran
    obtain ⟨walk, walks⟩ := Option.isSome_iff_exists.mp ran
    have creatable := visits_creatable walks
    rw [visits_eq _ creatable, Option.map_eq_some_iff] at walks
    obtain ⟨stored, written, -⟩ := walks
    exact ⟨creatable, (writes_inside creatable).mp
      (storeAll_isSome.mp (Option.isSome_of_eq_some written))⟩
  · rintro ⟨creatable, room⟩
    rw [visits_eq _ creatable, Option.isSome_map, storeAll_isSome]
    exact (writes_inside creatable).mpr room

/-- What a commit leaves: the entries after the writes of the walk, and its lights
in front of those of the application. -/
theorem commit_spec (ran : state.commit = some next) :
    next.world = state.world ∧
    storeAll (state.world.walked.filterMap Site.write) state.entries = some next.areaPDF ∧
    next.lightArray = state.world.walked.filterMap Site.light ++ state.world.lights.map .user ∧
    next.geometryLights = (state.world.walked.filterMap Site.light).length := by
  rw [commit_eq] at ran
  obtain ⟨walk, walks, rfl⟩ := Option.map_eq_some_iff.mp ran
  rw [visits_eq _ (visits_creatable walks)] at walks
  obtain ⟨stored, written, rfl⟩ := Option.map_eq_some_iff.mp walks
  exact ⟨rfl, written, rfl, rfl⟩

/-- The lights for a geometry in its place are those that the walk creates there. -/
theorem lightFor_iff (ran : state.commit = some next) {site : Site K X}
    {light : GeometryLight K X} : next.LightFor site light ↔
      (∃ visited ∈ state.world.walked, visited.geo = site.geo ∧ visited.xfm = site.xfm) ∧
        site.geo.Sampled ∧ ∃ pdf, geometryLightCreate site.geo site.xfm = some (some light, pdf) := by
  obtain ⟨-, -, lights, -⟩ := commit_spec ran
  rw [PathTracer.LightFor, lights, List.mem_append, List.mem_filterMap]
  constructor
  · rintro ⟨⟨visited, member, appended⟩ | foreign, sameGeo, sameXfm⟩
    · obtain ⟨sampled, made, pdf, created, ⟨⟩⟩ := light_iff.mp appended
      obtain ⟨ownGeo, ownXfm, -⟩ := (create_spec sampled.2 created).2.2 light rfl
      have geo : visited.geo = site.geo := ownGeo.symm.trans sameGeo
      have xfm : visited.xfm = site.xfm := ownXfm.symm.trans sameXfm
      rw [geo] at sampled created
      rw [xfm] at created
      exact ⟨⟨visited, member, geo, xfm⟩, sampled, pdf, created⟩
    · obtain ⟨_, _, user⟩ := List.mem_map.mp foreign
      cases user
  · rintro ⟨⟨visited, member, geo, xfm⟩, sampled, pdf, created⟩
    obtain ⟨ownGeo, ownXfm, -⟩ := (create_spec sampled.2 created).2.2 light rfl
    refine ⟨.inl ⟨visited, member, light_iff.mpr ?_⟩, ownGeo, ownXfm⟩
    rw [geo, xfm]
    exact ⟨sampled, light, pdf, created, rfl⟩

/-- There are geometry lights if a sampled geometry has an emissive primitive. -/
theorem lights_nonempty (ran : state.commit = some next) : 0 < next.geometryLights ↔
    ∃ site ∈ state.world.walked, site.geo.Sampled ∧ site.geo.HasEmissivePrim := by
  obtain ⟨-, -, -, count⟩ := commit_spec ran
  have materials := (commit_isSome.mp (Option.isSome_of_eq_some ran)).1
  rw [count, List.length_pos_iff_exists_mem]
  constructor
  · rintro ⟨light, listed⟩
    obtain ⟨site, member, appended⟩ := List.mem_filterMap.mp listed
    obtain ⟨sampled, made, pdf, created, -⟩ := light_iff.mp appended
    exact ⟨site, member, sampled, (create_spec sampled.2 created).1.mp rfl⟩
  · rintro ⟨site, member, sampled, emissive⟩
    obtain ⟨⟨light, pdf⟩, created⟩ :=
      Option.isSome_iff_exists.mp (creatable_iff.mpr materials site member sampled)
    obtain ⟨made, rfl⟩ :=
      Option.isSome_iff_exists.mp ((create_spec sampled.2 created).1.mpr emissive)
    exact ⟨.geometry made, List.mem_filterMap.mpr
      ⟨site, member, light_iff.mpr ⟨sampled, made, pdf, created, rfl⟩⟩⟩

/-- After a commit hits are evaluated if paths are long enough, or there is a
sampled geometry with an emissive primitive. -/
theorem evaluates_iff (ran : state.commit = some next) : next.EvaluatesHits ↔
    0 < state.world.maxDepth ∨
      ∃ site ∈ state.world.walked, site.geo.Sampled ∧ site.geo.HasEmissivePrim := by
  rw [PathTracer.EvaluatesHits, (commit_spec ran).1, lights_nonempty ran]

/-- The entry of a sampled geometry has what was stored when its light was created. -/
theorem entry_sampled (ran : state.commit = some next) {site : Site K X}
    (member : site ∈ state.world.walked) (sampled : site.geo.Sampled)
    {light : Option (GeometryLight K X)} {pdf : K}
    (created : geometryLightCreate site.geo site.xfm = some (light, pdf)) :
    (next.areaPDF site.table)[site.index]? = some pdf := by
  obtain ⟨-, written, -, -⟩ := commit_spec ran
  have write : site.write = some (site.table, site.index, pdf) := by
    simp [Site.write, sampled, created]
  refine storeAll_member written (List.mem_filterMap.mpr ⟨site, member, write⟩) ?_
  intro other listed same
  obtain ⟨visited, visitedMember, otherWrite⟩ := List.mem_filterMap.mp listed
  obtain ⟨-, made, -, rfl⟩ : visited.geo.Sampled ∧ ∃ made,
      geometryLightCreate visited.geo visited.xfm = some made ∧
        (visited.table, visited.index, made.2) = other := by
    simpa [Site.write] using otherWrite
  obtain rfl := walked_entry member visitedMember same
  rw [write] at otherWrite
  exact congrArg (fun write => write.2.2) (Option.some.inj otherWrite).symm

/-- The entry of any other geometry is as before the walk. -/
theorem entry_other (ran : state.commit = some next) {hit : Hit} {site : Site K X}
    (struck : state.world.hitSite hit = some site)
    (other : ¬ (site ∈ state.world.walked ∧ site.geo.Sampled)) :
    (next.areaPDF site.table)[site.index]? = (state.entries site.table)[site.index]? := by
  obtain ⟨-, written, -, -⟩ := commit_spec ran
  refine storeAll_other written ?_
  intro write listed same
  obtain ⟨visited, visitedMember, visitWrite⟩ := List.mem_filterMap.mp listed
  obtain ⟨sampled, made, -, rfl⟩ : visited.geo.Sampled ∧ ∃ made,
      geometryLightCreate visited.geo visited.xfm = some made ∧
        (visited.table, visited.index, made.2) = write := by
    simpa [Site.write] using visitWrite
  obtain member | none := hitSite_walked struck
  · obtain rfl := walked_entry member visitedMember same
    exact other ⟨member, sampled⟩
  · rw [none] at visitedMember
    cases visitedMember

/-- A hit on a sampled geometry finds what the lights say. -/
theorem density_sampled (ran : state.commit = some next) {hit : Hit} {site : Site K X}
    (struck : next.world.hitSite hit = some site) (member : site ∈ state.world.walked)
    (sampled : site.geo.Sampled) :
    ∃ pdf, next.areaPdf hit = some pdf ∧ (∀ light, next.LightFor site light → light.pdf = pdf) ∧
      ((¬ ∃ light, next.LightFor site light) → pdf = 0) := by
  have materials := (commit_isSome.mp (Option.isSome_of_eq_some ran)).1
  obtain ⟨⟨light, pdf⟩, created⟩ :=
    Option.isSome_iff_exists.mp (creatable_iff.mpr materials site member sampled)
  obtain ⟨-, unlit, lit⟩ := create_spec sampled.2 created
  refine ⟨pdf, ?_, ?_, ?_⟩
  · rw [PathTracer.areaPdf, struck]
    exact entry_sampled ran member sampled created
  · intro other found
    obtain ⟨-, -, otherPdf, otherCreated⟩ := (lightFor_iff ran).mp found
    obtain ⟨same, rfl⟩ := Prod.mk.inj (Option.some.inj (created.symm.trans otherCreated))
    exact (lit other same).2.2
  · intro none
    cases light with
    | none => exact unlit rfl
    | some made =>
      exact absurd ⟨made, (lightFor_iff ran).mpr ⟨⟨site, member, rfl, rfl⟩, sampled, pdf, created⟩⟩
        none

/-- There is no light for any other geometry, so a hit on it should find zero. -/
theorem density_other (ran : state.commit = some next) {hit : Hit} {site : Site K X}
    (struck : next.world.hitSite hit = some site)
    (other : ¬ (site ∈ state.world.walked ∧ site.geo.Sampled)) :
    (∃ pdf, next.areaPdf hit = some pdf ∧ (∀ light, next.LightFor site light → light.pdf = pdf) ∧
      ((¬ ∃ light, next.LightFor site light) → pdf = 0)) ↔
    (state.entries site.table)[site.index]? = some 0 := by
  have before : state.world.hitSite hit = some site := (commit_spec ran).1 ▸ struck
  have read : next.areaPdf hit = (state.entries site.table)[site.index]? := by
    rw [PathTracer.areaPdf, struck]
    exact entry_other ran before other
  have none : ¬ ∃ light, next.LightFor site light := by
    rintro ⟨light, found⟩
    obtain ⟨⟨visited, visitedMember, -⟩, sampled, -⟩ := (lightFor_iff ran).mp found
    obtain member | empty := hitSite_walked before
    · exact other ⟨member, sampled⟩
    · rw [empty] at visitedMember
      cases visitedMember
  rw [read]
  constructor
  · rintro ⟨pdf, found, -, zero⟩
    rw [found, zero none]
  · intro found
    exact ⟨0, found, fun light lit => absurd ⟨light, lit⟩ none, fun _ => rfl⟩

/-- One commit: it is defined and leaves consistent densities exactly if the state
before it meets the condition. -/
theorem commit_consistent_iff :
    (∃ next, state.commit = some next ∧ next.Consistent) ↔ state.Ready := by
  constructor
  · rintro ⟨next, ran, consistent⟩
    obtain ⟨materials, room⟩ := commit_isSome.mp (Option.isSome_of_eq_some ran)
    refine ⟨materials, room, ?_⟩
    intro evaluates hit site struck emissive
    obtain ⟨same, -⟩ := commit_spec ran
    have struckAfter : next.world.hitSite hit = some site := same ▸ struck
    have found := consistent hit site struckAfter (same ▸ emissive) ((evaluates_iff ran).mpr evaluates)
    by_cases sampled : site ∈ state.world.walked ∧ site.geo.Sampled
    · exact .inl sampled
    · exact .inr ((density_other ran struckAfter sampled).mp found)
  · intro ready
    obtain ⟨next, ran⟩ := Option.isSome_iff_exists.mp (commit_isSome.mpr ⟨ready.materials, ready.room⟩)
    refine ⟨next, ran, ?_⟩
    intro hit site struck emissive evaluates
    have same : next.world = state.world := (commit_spec ran).1
    by_cases sampled : site ∈ state.world.walked ∧ site.geo.Sampled
    · exact density_sampled ran struck sampled.1 sampled.2
    · refine (density_other ran struck sampled).mpr ?_
      exact (ready.clear ((evaluates_iff ran).mp evaluates) hit site (same ▸ struck)
        (same ▸ emissive)).resolve_left sampled

/-- One event: it is defined and leaves consistent densities if it is a commit,
exactly if the state is ready in that case. -/
theorem step_consistent_iff (state : PathTracer K X) (event : Event K X) :
    (∃ next, state.step event = some next ∧ (some event = some .commit → next.Consistent)) ↔
      (event = .commit → state.Ready) := by
  cases event with
  | edit world => exact iff_of_true ⟨_, rfl, fun absent => nomatch absent⟩ fun absent => nomatch absent
  | finalize id => exact iff_of_true ⟨_, rfl, fun absent => nomatch absent⟩ fun absent => nomatch absent
  | commit => simpa [PathTracer.step] using commit_consistent_iff

end Commit

/-! ## Histories -/

theorem foldl_last (events : List (Event K X)) :
    events.foldl (fun _ event => some event) none = events.getLast? := by
  induction events using List.reverseRecOn with
  | nil => rfl
  | append_singleton earlier event _ => simp

/-- For every history from any state: the tracer stays defined and its densities
are consistent after each commit, exactly if the state before each commit is ready
for it. -/
theorem densities_consistent_iff [Zero K] [One K] [Add K] [Div K] [LinearOrder K] [MulOneClass X]
    (tracer : PathTracer K X) (events : List (Event K X)) :
    (∀ done, done <+: events → ∃ state, done.foldlM PathTracer.step tracer = some state ∧
        (done.getLast? = some .commit → state.Consistent)) ↔
      ∀ done, done ++ [.commit] <+: events →
        ∀ state, done.foldlM PathTracer.step tracer = some state → state.Ready := by
  have start : none = some (Event.commit : Event K X) → tracer.Consistent :=
    fun absent => nomatch absent
  have lockstep := Library.Runs.lockstep_iff
    (fun (state : PathTracer K X) last => last = some Event.commit → state.Consistent)
    (fun state event => event = Event.commit → state.Ready)
    (fun state _ event _ => step_consistent_iff state event)
    start events
  simp only [foldl_last] at lockstep
  rw [lockstep]
  constructor
  · intro admissible done before state reached
    exact admissible done .commit before state reached rfl
  · rintro ready done _ before state reached rfl
    exact ready done before state reached

/-! ## A switched off light -/

/-- A geometry with one emissive primitive, whose area is four. -/
def glowing : Geometry ℚ ℚ where
  materialList := [some ⟨fun _ => 1⟩]
  primitives := [⟨0, 0⟩]
  sampleArea := true
  getAreas := some fun _ _ => 4

/-- A model of that geometry, with or without geometry lights. -/
def glowingWorld (useGeometryLights : Bool) : World ℚ ℚ where
  model := some [.regular glowing]
  instances := fun _ => ⟨1, [], []⟩
  useGeometryLights := useGeometryLights
  lights := []
  maxDepth := 20

/-- A path tracer as it is created, with that model. -/
def created : PathTracer ℚ ℚ := ⟨glowingWorld true, fun _ => [], [], 0⟩

/-- Switching geometry lights off removes the light but not its density: after a
commit with lights and one without, a hit still reads a quarter. -/
theorem switched_off_density :
    ¬ ∀ done, done <+: [.commit, .edit (glowingWorld false), .commit] →
      ∃ state, done.foldlM PathTracer.step created = some state ∧
        (done.getLast? = some .commit → state.Consistent) := by
  intro consistent
  obtain ⟨state, ran, densities⟩ := consistent _ List.prefix_rfl
  obtain ⟨last, lastRan, world, dark, read⟩ : ∃ last : PathTracer ℚ ℚ,
      [.commit, .edit (glowingWorld false), .commit].foldlM PathTracer.step created = some last ∧
        last.world = glowingWorld false ∧ last.lightArray = [] ∧
          last.areaPdf ⟨none, 0, 0⟩ = some (1 / 4) :=
    ⟨_, rfl, rfl, rfl, rfl⟩
  obtain rfl : last = state := Option.some.inj (lastRan.symm.trans ran)
  have struck : last.world.hitSite ⟨none, 0, 0⟩ = some ⟨.renderer, 0, 1, glowing⟩ := by
    rw [world]
    rfl
  have emissive : last.world.EmissiveHit ⟨none, 0, 0⟩ := by
    rw [world]
    exact ⟨⟨fun _ => 1⟩, rfl, rfl⟩
  have evaluates : last.EvaluatesHits := by
    rw [PathTracer.EvaluatesHits, world]
    exact .inl (by decide)
  obtain ⟨pdf, found, -, zero⟩ := densities rfl _ _ struck emissive evaluates
  have unlit : pdf = 0 := by
    refine zero ?_
    rintro ⟨light, lit, -⟩
    rw [dark] at lit
    cases lit
  have quarter : (1 / 4 : ℚ) = 0 := (Option.some.inj (read.symm.trans found)).trans unlit
  exact absurd quarter (by decide +kernel)

end Ospray.GeometryLights
