import Mathlib.Tactic
import Mathlib.Logic.Relation

/-!
`component_types.h`: the hierarchy of component types.

Every `YLOC_DECLARE_TYPE(type, bases)` is a constructor of `Component` with its
bases listed by `Component.bases`. `Component.isA` is the `dynamic_cast` of
`is_a<ComponentType>()`; `isA_iff` identifies it with the chains of bases.
-/

namespace Yloc

/-- The component types, in the order of their declarations. -/
inductive Component where
  | component
  | unknownComponentType
  | node
  | compute | cpuCore | logicalCore | physicalCore
  | storage | memory | cache | persistentStorage
  | volatileMemory | nonVolatileMemory
  | dataCache | instructionCache | unifiedCache
  | l1Cache | l2Cache | l3Cache | l4Cache
  | l1DataCache | l2DataCache | l3DataCache | l4DataCache
  | l1InstructionCache | l2InstructionCache | l3InstructionCache | l4InstructionCache
  | l1UnifiedCache | l2UnifiedCache | l3UnifiedCache | l4UnifiedCache
  | solidStateDrive | hardDiskDrive
  | pciDevice | bridge
  | logicalAccelerator | logicalGPU
  | accelerator | gpu | fpga
  | gpuCore | gpuMemory
  | inputOutput | networkDevice
  | link | bus
  | misc
  | logicalEdgeType | parent | child
  | logicalComponent | mpiProcess
  deriving DecidableEq, Repr

namespace Component

/-- The bases a type is declared with. -/
def bases : Component → List Component
  | component => []
  | unknownComponentType => [component]
  | node => [component]
  | compute => [component]
  | cpuCore => [compute]
  | logicalCore => [cpuCore]
  | physicalCore => [cpuCore]
  | storage => [component]
  | memory => [storage]
  | cache => [storage]
  | persistentStorage => [storage]
  | volatileMemory => [memory]
  | nonVolatileMemory => [memory]
  | dataCache => [cache]
  | instructionCache => [cache]
  | unifiedCache => [dataCache, instructionCache]
  | l1Cache => [cache]
  | l2Cache => [cache]
  | l3Cache => [cache]
  | l4Cache => [cache]
  | l1DataCache => [l1Cache, dataCache]
  | l2DataCache => [l2Cache, dataCache]
  | l3DataCache => [l3Cache, dataCache]
  | l4DataCache => [l4Cache, dataCache]
  | l1InstructionCache => [l1Cache, instructionCache]
  | l2InstructionCache => [l2Cache, instructionCache]
  | l3InstructionCache => [l3Cache, instructionCache]
  | l4InstructionCache => [l4Cache, instructionCache]
  | l1UnifiedCache => [l1Cache, unifiedCache]
  | l2UnifiedCache => [l2Cache, unifiedCache]
  | l3UnifiedCache => [l3Cache, unifiedCache]
  | l4UnifiedCache => [l4Cache, unifiedCache]
  | solidStateDrive => [persistentStorage]
  | hardDiskDrive => [persistentStorage]
  | pciDevice => [component]
  | bridge => [component]
  | logicalAccelerator => [component]
  | logicalGPU => [logicalAccelerator]
  | accelerator => [pciDevice]
  | gpu => [accelerator]
  | fpga => [accelerator]
  | gpuCore => [gpu, compute]
  | gpuMemory => [gpu, memory]
  | inputOutput => [component]
  | networkDevice => [pciDevice, inputOutput]
  | link => [component]
  | bus => [link]
  | misc => [component]
  | logicalEdgeType => [component]
  | parent => [logicalEdgeType]
  | child => [logicalEdgeType]
  | logicalComponent => [component]
  | mpiProcess => [logicalComponent]

/-- The length of the longest chain of bases below a type. -/
def depth : Component → ℕ
  | component => 0
  | unknownComponentType | node | compute | storage | pciDevice | bridge | logicalAccelerator
  | inputOutput | link | misc | logicalEdgeType | logicalComponent => 1
  | cpuCore | memory | cache | persistentStorage | logicalGPU | accelerator | networkDevice
  | bus | parent | child | mpiProcess => 2
  | logicalCore | physicalCore | volatileMemory | nonVolatileMemory | dataCache
  | instructionCache | l1Cache | l2Cache | l3Cache | l4Cache | solidStateDrive | hardDiskDrive
  | gpu | fpga => 3
  | unifiedCache | l1DataCache | l2DataCache | l3DataCache | l4DataCache | l1InstructionCache
  | l2InstructionCache | l3InstructionCache | l4InstructionCache | gpuCore | gpuMemory => 4
  | l1UnifiedCache | l2UnifiedCache | l3UnifiedCache | l4UnifiedCache => 5

/-- The type `b` is `c` or is met within `d` declarations of bases above `c`. -/
def derivedWithin : ℕ → Component → Component → Bool
  | 0, c, b => c == b
  | d + 1, c, b => c == b || c.bases.any fun c' => derivedWithin d c' b

/-- `is_a<b>()` of an object of type `c`. -/
def isA (c b : Component) : Bool := derivedWithin c.depth c b

/-- `to_string`. -/
def toString : Component → String
  | component => "Component"
  | unknownComponentType => "UnknownComponentType"
  | node => "Node"
  | compute => "Compute"
  | cpuCore => "CPUCore"
  | logicalCore => "LogicalCore"
  | physicalCore => "PhysicalCore"
  | storage => "Storage"
  | memory => "Memory"
  | cache => "Cache"
  | persistentStorage => "PersistentStorage"
  | volatileMemory => "VolatileMemory"
  | nonVolatileMemory => "NonVolatileMemory"
  | dataCache => "DataCache"
  | instructionCache => "InstructionCache"
  | unifiedCache => "UnifiedCache"
  | l1Cache => "L1Cache"
  | l2Cache => "L2Cache"
  | l3Cache => "L3Cache"
  | l4Cache => "L4Cache"
  | l1DataCache => "L1DataCache"
  | l2DataCache => "L2DataCache"
  | l3DataCache => "L3DataCache"
  | l4DataCache => "L4DataCache"
  | l1InstructionCache => "L1InstructionCache"
  | l2InstructionCache => "L2InstructionCache"
  | l3InstructionCache => "L3InstructionCache"
  | l4InstructionCache => "L4InstructionCache"
  | l1UnifiedCache => "L1UnifiedCache"
  | l2UnifiedCache => "L2UnifiedCache"
  | l3UnifiedCache => "L3UnifiedCache"
  | l4UnifiedCache => "L4UnifiedCache"
  | solidStateDrive => "SolidStateDrive"
  | hardDiskDrive => "HardDiskDrive"
  | pciDevice => "PCIDevice"
  | bridge => "Bridge"
  | logicalAccelerator => "LogicalAccelerator"
  | logicalGPU => "LogicalGPU"
  | accelerator => "Accelerator"
  | gpu => "GPU"
  | fpga => "FPGA"
  | gpuCore => "GPUCore"
  | gpuMemory => "GPUMemory"
  | inputOutput => "InputOutput"
  | networkDevice => "NetworkDevice"
  | link => "Link"
  | bus => "Bus"
  | misc => "Misc"
  | logicalEdgeType => "LogicalEdgeType"
  | parent => "Parent"
  | child => "Child"
  | logicalComponent => "LogicalComponent"
  | mpiProcess => "MPIProcess"

lemma depth_lt (c : Component) : ∀ b ∈ c.bases, b.depth < c.depth := by
  cases c <;> decide

/-- A type is derived from `b` exactly when a chain of bases leads to `b`. -/
theorem derivedWithin_iff (b : Component) : ∀ (d : ℕ) (c : Component), c.depth ≤ d →
    (derivedWithin d c b = true ↔ Relation.ReflTransGen (fun x y => y ∈ x.bases) c b) := by
  intro d
  induction d with
  | zero =>
      intro c hc
      rw [derivedWithin, beq_iff_eq]
      constructor
      · rintro rfl
        exact .refl
      · intro h
        rcases Relation.ReflTransGen.cases_head h with h | ⟨c', hc', -⟩
        · exact h
        · have := depth_lt c c' hc'
          omega
  | succ d ih =>
      intro c hc
      have hbase : ∀ c' ∈ c.bases, c'.depth ≤ d := fun c' hc' => by
        have := depth_lt c c' hc'
        omega
      rw [derivedWithin, Bool.or_eq_true, beq_iff_eq, List.any_eq_true]
      constructor
      · rintro (rfl | ⟨c', hc', h⟩)
        · exact .refl
        · exact .head hc' ((ih c' (hbase c' hc')).mp h)
      · intro h
        rcases Relation.ReflTransGen.cases_head h with h | ⟨c', hc', h⟩
        · exact Or.inl h
        · exact Or.inr ⟨c', hc', (ih c' (hbase c' hc')).mpr h⟩

/-- **`is_a` follows the declared bases.** -/
theorem isA_iff {c b : Component} :
    c.isA b = true ↔ Relation.ReflTransGen (fun x y => y ∈ x.bases) c b :=
  derivedWithin_iff b c.depth c le_rfl

end Component

end Yloc
