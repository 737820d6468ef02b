import AmdGpuEp.Lib.Digraph
import AmdGpuEp.Lib.Transcript
import AmdGpuEp.Lib.Transfers
import AmdGpuEp.Lib.Wrapped
import AmdGpuEp.Lib.Runs
import AmdGpuEp.Lib.RingRanges
import AmdGpuEp.Lib.RefCount
import AmdGpuEp.Lib.Dataflow
import AmdGpuEp.Lib.FencedQueue
import AmdGpuEp.Lib.Erf
import AmdGpuEp.Lib.Fallible
import AmdGpuEp.Lib.Strided
import AmdGpuEp.Lib.FsPath
import AmdGpuEp.Lib.FloatFormat
import AmdGpuEp.Ort.Graph
import AmdGpuEp.Shared.TopologicalSort
import AmdGpuEp.Shared.GraphToProto
import AmdGpuEp.Shared.OpAttrToProto
import AmdGpuEp.MIGraphX.Capability
import AmdGpuEp.MIGraphX.KernelRegistry
import AmdGpuEp.MIGraphX.ShapeKey
import AmdGpuEp.MIGraphX.CacheKey
import AmdGpuEp.MIGraphX.DynamicBatch
import AmdGpuEp.MIGraphX.BatchBuckets
import AmdGpuEp.MIGraphX.HipGraph
import AmdGpuEp.MIGraphX.Residue
import AmdGpuEp.MIGraphX.GraphHandles
import AmdGpuEp.MIGraphX.Compute
import AmdGpuEp.MIGraphX.StagingFits
import AmdGpuEp.MIGraphX.CompiledShapes
import AmdGpuEp.MIGraphX.Lifetimes
import AmdGpuEp.MIGraphX.Outputs
import AmdGpuEp.MIGraphX.PaddedRuns
import AmdGpuEp.MIGraphX.PadCopies
import AmdGpuEp.MIGraphX.CoalescedStaging
import AmdGpuEp.MIGraphX.CalibrationTable
import AmdGpuEp.MIGraphX.EpContext
import AmdGpuEp.MIGraphX.EpContextGroups
import AmdGpuEp.MIGraphX.EpContextTempFile
import AmdGpuEp.MIGraphX.ConstantArguments
import AmdGpuEp.MIGraphX.OpModes
import AmdGpuEp.MIGraphX.ExternalMemory
import AmdGpuEp.MIGraphX.SupportedDevices
import AmdGpuEp.MIGraphX.EpContextPaths
import AmdGpuEp.MIGraphX.OutputNames
import AmdGpuEp.MIGraphX.SessionOptions
import AmdGpuEp.DirectML.DataTransfer
import AmdGpuEp.DirectML.ReadbackHeap
import AmdGpuEp.DirectML.TensorCopies
import AmdGpuEp.DirectML.PluginCopies
import AmdGpuEp.DirectML.OvertakenReadbacks
import AmdGpuEp.DirectML.KernelCopies
import AmdGpuEp.DirectML.ExecutionContext
import AmdGpuEp.DirectML.FusionUtils
import AmdGpuEp.DirectML.PatternMatcher
import AmdGpuEp.DirectML.PatternAssignments
import AmdGpuEp.DirectML.FusionManager
import AmdGpuEp.DirectML.ModelGraph
import AmdGpuEp.DirectML.FusionRules
import AmdGpuEp.DirectML.FusionGroups
import AmdGpuEp.DirectML.BiasGelu
import AmdGpuEp.DirectML.QuickGelu
import AmdGpuEp.DirectML.FusedMatMulCapture
import AmdGpuEp.DirectML.Activations
import AmdGpuEp.DirectML.FusedMatMulKernel
import AmdGpuEp.DirectML.FusedMatMulRefines
import AmdGpuEp.DirectML.FusedMatMulInitializer
import AmdGpuEp.DirectML.GemmShapes
import AmdGpuEp.DirectML.Tier0Partition
import AmdGpuEp.DirectML.CapabilityTiers
import AmdGpuEp.DirectML.FusionDispatch
import AmdGpuEp.DirectML.OpTranslator
import AmdGpuEp.DirectML.FullGraphFusion
import AmdGpuEp.DirectML.TranslationWalk
import AmdGpuEp.DirectML.DeadNodes
import AmdGpuEp.DirectML.GraphWiring
import AmdGpuEp.DirectML.InputPacking
import AmdGpuEp.DirectML.PackedTranslators
import AmdGpuEp.DirectML.InputRouting
import AmdGpuEp.DirectML.GraphMeaning
import AmdGpuEp.DirectML.GraphWellFormed
import AmdGpuEp.DirectML.RoutedInputs
import AmdGpuEp.DirectML.SubgraphShapes
import AmdGpuEp.DirectML.RecordedRanks
import AmdGpuEp.DirectML.BoundSizes
import AmdGpuEp.DirectML.OwnedInputs
import AmdGpuEp.DirectML.ValueInputs
import AmdGpuEp.DirectML.Broadcasting
import AmdGpuEp.DirectML.Transpose
import AmdGpuEp.DirectML.Pad
import AmdGpuEp.DirectML.Slice
import AmdGpuEp.DirectML.GroupNorm
import AmdGpuEp.DirectML.ConvTranslators
import AmdGpuEp.DirectML.ChannelParameters
import AmdGpuEp.DirectML.MatMulShapes
import AmdGpuEp.DirectML.QuantizedMatMul
import AmdGpuEp.DirectML.OperatorChains
import AmdGpuEp.DirectML.RotaryTranslator
import AmdGpuEp.DirectML.RotaryLayout
import AmdGpuEp.DirectML.RotaryRuns
import AmdGpuEp.DirectML.RotaryEmbedding
import AmdGpuEp.DirectML.Resize
import AmdGpuEp.DirectML.AxisTranslators
import AmdGpuEp.DirectML.AxisPlaces
import AmdGpuEp.DirectML.RangeCount
import AmdGpuEp.DirectML.MergedPatterns
import AmdGpuEp.DirectML.ShapeResolution
import AmdGpuEp.DirectML.ResolutionLoop
import AmdGpuEp.DirectML.ResizedShapes
import AmdGpuEp.DirectML.OnnxOperators
import AmdGpuEp.DirectML.StaticEval
import AmdGpuEp.DirectML.StaticValues
import AmdGpuEp.DirectML.KernelRegistration
import AmdGpuEp.DirectML.AbiKernel
import AmdGpuEp.DirectML.EagerKernel
import AmdGpuEp.DirectML.AbiOutputShapes
import AmdGpuEp.DirectML.AttributeQueries
import AmdGpuEp.DirectML.BucketizedAllocator
import AmdGpuEp.DirectML.PooledUploadHeap
import AmdGpuEp.DirectML.ClaimedGroups
import AmdGpuEp.Amdgpu.Factory
import AmdGpuEp.Amdgpu.OptionForwarding
import AmdGpuEp.Lib.Stratified
import AmdGpuEp.DirectML.CpuPreferredNodes
import AmdGpuEp.DirectML.CpuPlacement
import AmdGpuEp.Lib.DiscreteFourier
import AmdGpuEp.DirectML.StockhamFft
import AmdGpuEp.DirectML.DftKernel
import AmdGpuEp.DirectML.ChirpZTransform
import AmdGpuEp.DirectML.DescriptorPool
import AmdGpuEp.DirectML.StftKernel
