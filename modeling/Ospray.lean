import Ospray.Library.Runs
import Ospray.Library.Loops
import Ospray.Library.SortedSets
import Ospray.Library.Vectors
import Ospray.Library.Slots
import Ospray.Library.Bytes
import Ospray.Library.Chains
import Ospray.Library.BoxTrees
import Ospray.Library.Buffers
import Ospray.Library.RowMajor
import Ospray.Library.Replicas
import Ospray.Library.Tables
import Ospray.Common.Streams
import Ospray.Common.StreamBuffers
import Ospray.Common.WorkItems
import Ospray.Common.CommandStream
import Ospray.Common.AsyncLoop
import Ospray.Tasking.WorkOnIt
import Ospray.Tasking.TaskSys
import Ospray.Tasking.Lifetimes
import Ospray.Tasking.JobsOnce
import Ospray.Fb.Tile
import Ospray.Fb.TileKernels
import Ospray.Fb.TileData
import Ospray.Fb.AlphaBlendTile
import Ospray.Fb.WriteMultipleTile
import Ospray.Fb.LocalFrameBuffer
import Ospray.Fb.Accumulation
import Ospray.Fb.TileGrid
import Ospray.Fb.TileMessages
import Ospray.Fb.MasterMessages
import Ospray.Fb.TileCompletion
import Ospray.Fb.MappedDepth
import Ospray.Fb.TileError
import Ospray.Render.RegionOwners
import Ospray.Render.StaticBalancer
import Ospray.Render.DynamicMaster
import Ospray.Render.DynamicSlave
import Ospray.Render.RegionIndices
import Ospray.Api.ModelContents
import Ospray.Api.RefCounts
import Ospray.Maml.Context
import Ospray.Volume.AmrAccel
import Ospray.Volume.AmrTree
import Ospray.Volume.AmrLayout
import Ospray.Volume.StructuredVolume
import Ospray.Volume.BlockBrickedVolume
import Ospray.Volume.GhostBlockBrickedVolume
import Ospray.Volume.GhostVoxels
import Ospray.Volume.SharedStructuredVolume
import Ospray.Volume.VoxelLayouts
import Ospray.Library.Subdivisions
import Ospray.Fb.FragmentBlending
import Ospray.Fb.CompletedTiles
import Ospray.Render.TileTasks
import Ospray.Fb.ErrorRegions
import Ospray.Fb.Convergence
import Ospray.Common.XmlParser
import Ospray.Common.XmlGrammar
import Ospray.Common.XmlProgress
import Ospray.Common.XmlWriter
import Ospray.Render.GeometryLights
import Ospray.Library.Forests
import Ospray.Sg.Node
import Ospray.Sg.Updates
import Ospray.Sg.Commit
import Ospray.Sg.Histories
import Ospray.Library.SinglePrecision
import Ospray.Common.OffloadDevice
import Ospray.Fb.DelayedMessages
import Ospray.Fb.FrameAddresses
import Ospray.Fb.ZCompositing
import Ospray.Volume.IntDiv
import Ospray.Library.Envelopes
import Ospray.Volume.GridAccelerator
import Ospray.Volume.CellRanges
import Ospray.Volume.TransferFunction
import Ospray.Library.Whiles
import Ospray.Volume.StepRay
import Ospray.Fb.FinalGather
import Ospray.Library.Hulls
import Ospray.Library.Partitions
import Ospray.Library.StackTraversals
import Ospray.Volume.MinMaxBVH2
import Ospray.Volume.BvhInvariants
import Ospray.Volume.BvhReferences
import Ospray.Volume.BvhTraversal
import Ospray.Volume.BvhStack
import Ospray.Volume.BvhBruteForce
import Ospray.Volume.UnstructuredVolume
import Ospray.Library.Brackets
import Ospray.Volume.IntersectIsoRay
import Ospray.Volume.SampleBounds
import Ospray.Volume.AddressingModes
import Ospray.Library.ScaledBoxes
import Ospray.Volume.ScaleRegion
import Ospray.Library.PiecewiseLinear
import Ospray.Volume.PreIntegration
import Ospray.Library.Tetrahedra
import Ospray.Volume.FaceNormals
import Ospray.Volume.TetSampling
import Ospray.Volume.HexSampling
import Ospray.Volume.AmrLookup
import Ospray.Library.AxisChoices
import Ospray.Volume.FindStack
import Ospray.Volume.LastValidPos
import Ospray.Volume.DualCell
import Ospray.Volume.DualLookup
import Ospray.Library.BinaryFormats
import Ospray.Volume.AmrVoxels
import Ospray.Volume.Octant
import Ospray.Volume.AmrMethods
import Ospray.Library.NestedGrids
import Ospray.Volume.AmrLevels
import Ospray.Volume.OctantCells
import Ospray.Volume.OctantNeighbors
import Ospray.Volume.OctantBounds
import Ospray.Volume.OctantLimits
import Ospray.Library.Ownership
import Ospray.Sg.Ownership
import Ospray.Sg.Relinking
import Ospray.Sg.ParentLinks
import Ospray.Sg.Verification
import Ospray.Sg.VerifyTraversal
import Ospray.Sg.VerifyHistories
import Ospray.Viewer.AsyncRenderEngine
import Ospray.Viewer.StoppingEngine
import Ospray.Library.ControlPoints
import Ospray.Sg.TransferFunction
import Ospray.Library.Bisection
import Ospray.Library.InverseSampling
import Ospray.Math.Distribution1D
import Ospray.Math.Distribution2D
import Ospray.Library.SplitBits
import Ospray.Library.Strides
import Ospray.Render.ZOrder
import Ospray.Render.RenderTile
import Ospray.Library.Lockstep
import Ospray.Render.VolumeInterval
import Ospray.Library.Progress
import Ospray.Render.VolumeIntegration
import Ospray.Render.ShadowOpacity
import Ospray.Geometry.Rays
import Ospray.Geometry.Spheres
import Ospray.Library.Quadratics
import Ospray.Geometry.Axes
import Ospray.Geometry.Cylinders
import Ospray.Library.LineBodies
import Ospray.Geometry.Capsules
import Ospray.Geometry.StreamLines
import Ospray.Geometry.FirstHits
import Ospray.Library.Chunks
import Ospray.Geometry.StreamCurves
import Ospray.Library.ForeachUnique
import Ospray.Geometry.SafeGather
import Ospray.Geometry.Meshes
import Ospray.Geometry.MeshGather
import Ospray.Geometry.MeshLoops
import Ospray.Common.DataTypes
import Ospray.Geometry.Records
import Ospray.Geometry.SphereRecords
import Ospray.Geometry.CylinderRecords
import Ospray.Library.Simulations
import Ospray.Common.XmlPointers
import Ospray.Common.XmlSimulation
import Ospray.Common.XmlBroken
import Ospray.Common.XmlSafety
import Ospray.Library.Lifetimes
import Ospray.Common.Optional
import Ospray.Common.Array3D
import Ospray.Library.Positions
import Ospray.Common.PseudoURL
import Ospray.Common.FileName
import Ospray.Library.SingleFractions
import Ospray.Texture.SmallerSizes
import Ospray.Library.MachineIntegers
import Ospray.Texture.Texture2D
import Ospray.Common.Boxes
import Ospray.Library.MixedRadix
import Ospray.Common.IndexSequences
import Ospray.Math.Rotations
import Ospray.Common.Data
import Ospray.Common.SocketValues
import Ospray.Api.WorkerRefCounts
import Ospray.Viewer.FrameDelivery
import Ospray.Render.LocalBalancer
