import Yloc.Lib.Acyclic
import Yloc.Lib.Keyed
import Yloc.Lib.LaterPairs
import Yloc.Lib.Commute
import Yloc.Lib.Spmd
import Yloc.IdentifierMap
import Yloc.Topology
import Yloc.Identifiers
import Yloc.Util
import Yloc.LowestVertex
import Yloc.Status
import Yloc.Modules.Hwloc
import Yloc.Modules.SuperMuc
import Yloc.Modules.Mpi
import Yloc.Modules.Gpu
import Yloc.Modules.Rocm
import Yloc.Modules.Nvml
import Yloc.Init
import Yloc.ModuleOps
import Yloc.Shape
import Yloc.HopDistance
import Yloc.Placement
import Yloc.Exchange
import Yloc.OrderIndependence
import Yloc.RootVertex
import Yloc.StartUp
import Yloc.PciUnification
import Yloc.BdfidFormat
import Yloc.GpuInterconnects
import Yloc.RocmDevices
import Yloc.NvmlAssertion
import Yloc.NumaNumbering
import Yloc.HwlocEmbedding
import Yloc.CpuSets
import Yloc.PropertyLookup
import Yloc.HostNames
import Yloc.PrefixTree
import Yloc.RankPlacement
import Yloc.Collectives
import Yloc.Query
import Yloc.WeightedPaths
import Yloc.Lib.Forest
import Yloc.TreeDistance
import Yloc.SystemHierarchy
import Yloc.HostDistance
import Yloc.GraphView
import Yloc.VertexTypes
import Yloc.FindDistances
import Yloc.RankDistances
import Yloc.Growth
import Yloc.Additions
import Yloc.DotFile
import Yloc.LocalRanks
import Yloc.IdentifyingProperties
