import Yloc.Affinity
import Yloc.ComponentTypes

/-!
`property.h`, `adapter.h`, `graph_element.h`: properties, adapters and the
lookup of a property on a graph element.

An adapter is modelled by what its virtual functions return: `Adapter.Values`
has one field for each `ADAPTER_PROPERTY` with the default of the base class,
and `Adapter` adds the wrapped object and the module-specific property map.
`GraphElement.get` is the two-level lookup of the source, first in the global
map `Adapter.map`, else in the map of each adapter. `get_perm` says when the
order of the adapters does not matter: when any two of them that answer agree.
-/

namespace Yloc

/-- The value types of properties, as `typeid` tells them apart. -/
inductive TypeId where
  | uint64
  | int64
  | affinityMask
  | string
  /-- Any further type, told apart by a number. -/
  | other (id : ℕ)
  deriving DecidableEq, Repr

/-- The values of a type; a value of a further type is its object representation. -/
def TypeId.denote (n : ℕ) : TypeId → Type
  | uint64 => UInt64
  | int64 => Int64
  | affinityMask => AffinityMask n
  | string => String
  | other _ => List UInt8

/-- What the virtual functions of `Adapter` return. -/
structure Adapter.Values (n : ℕ) where
  toString : String := ""
  temperature : Option Int64 := none
  memory : Option UInt64 := none
  memoryUsage : Option UInt64 := none
  memoryLoad : Option UInt64 := none
  memoryFrequency : Option UInt64 := none
  bdfid : Option UInt64 := none
  numaAffinity : Option UInt64 := none
  bandwidth : Option UInt64 := none
  bandwidthMin : Option UInt64 := none
  bandwidthMax : Option UInt64 := none
  throughput : Option UInt64 := none
  latency : Option UInt64 := none
  frequency : Option UInt64 := none
  power : Option UInt64 := none
  usage : Option UInt64 := none
  load : Option UInt64 := none
  pciThroughput : Option UInt64 := none
  pciThroughputRead : Option UInt64 := none
  pciThroughputWrite : Option UInt64 := none
  cpuAffinityMask : Option (AffinityMask n) := none
  mpiRank : Option UInt64 := none

/-- `AbstractProperty`: a property of type `typeId`, read off an adapter by
`value` and written to a stream by `print`. -/
structure Property (n : ℕ) where
  typeId : TypeId
  value : Adapter.Values n → Option (typeId.denote n)
  print : typeId.denote n → String

namespace Property

variable {n : ℕ}

/-- `Property<uint64_t>`. -/
def ofUInt64 (pf : Adapter.Values n → Option UInt64) : Property n :=
  ⟨.uint64, pf, fun v : UInt64 => ToString.toString v⟩

/-- `Property<int64_t>`. -/
def ofInt64 (pf : Adapter.Values n → Option Int64) : Property n :=
  ⟨.int64, pf, fun v : Int64 => ToString.toString v⟩

/-- `Property<AffinityMask>`: the bits are written from the highest down. -/
def ofMask (pf : Adapter.Values n → Option (AffinityMask n)) : Property n :=
  ⟨.affinityMask, pf, fun m : AffinityMask n =>
    String.ofList ((List.range n).reverse.map fun cpu => if m.get cpu then '1' else '0')⟩

/-- `supports(typeid(RT))` followed by `value`, empty when unsupported. -/
def valueAs (p : Property n) (rt : TypeId) (a : Adapter.Values n) : Option (rt.denote n) :=
  if h : p.typeId = rt then h ▸ p.value a else none

/-- `value_to_string`. -/
def valueToString (p : Property n) (a : Adapter.Values n) : Option String :=
  (p.value a).map p.print

end Property

/-- `Adapter::map`: the global property map. -/
def Adapter.map {n : ℕ} : List (String × Property n) :=
  [("memory", .ofUInt64 Values.memory),
   ("memory_usage", .ofUInt64 Values.memoryUsage),
   ("memory_load", .ofUInt64 Values.memoryLoad),
   ("memory_frequency", .ofUInt64 Values.memoryFrequency),
   ("bdfid", .ofUInt64 Values.bdfid),
   ("numa_affinity", .ofUInt64 Values.numaAffinity),
   ("bandwidth", .ofUInt64 Values.bandwidth),
   ("bandwidth_min", .ofUInt64 Values.bandwidthMin),
   ("bandwidth_max", .ofUInt64 Values.bandwidthMax),
   ("throughput", .ofUInt64 Values.throughput),
   ("latency", .ofUInt64 Values.latency),
   ("frequency", .ofUInt64 Values.frequency),
   ("temperature", .ofInt64 Values.temperature),
   ("power", .ofUInt64 Values.power),
   ("usage", .ofUInt64 Values.usage),
   ("load", .ofUInt64 Values.load),
   ("pci_throughput", .ofUInt64 Values.pciThroughput),
   ("pci_throughput_read", .ofUInt64 Values.pciThroughputRead),
   ("pci_throughput_write", .ofUInt64 Values.pciThroughputWrite),
   ("mpi_rank", .ofUInt64 Values.mpiRank),
   ("cpu_affinity_mask", .ofMask Values.cpuAffinityMask)]

/-- What an adapter class wraps, its `m_obj`. -/
inductive NativeObj where
  /-- An `hwloc_obj_t`, by the address it points to. -/
  | hwlocObj (addr : ℕ)
  | mpiRank (rank : ℕ)
  | supermucName (name : String)
  | rocmDevice (index : ℕ)
  | nvmlDevice (handle : ℕ)
  deriving DecidableEq, Repr

/-- An adapter object: its virtual functions, the wrapped object, and its
`module_map`, which is the global map unless overridden. -/
structure Adapter (n : ℕ) extends Adapter.Values n where
  mObj : NativeObj
  moduleMap : List (String × Property n) := Adapter.map

/-- `GraphElement`, of which `Vertex` is the vertex bundle. -/
structure GraphElement (n : ℕ) where
  mAdapters : List (Adapter n) := []
  mDescription : String := ""
  mType : Component := .unknownComponentType

/-- `Vertex`. -/
abbrev Vertex (n : ℕ) := GraphElement n

namespace GraphElement

variable {n : ℕ}

/-- `get<std::string>`: every property is searched by `value_to_string`. -/
def getString (v : GraphElement n) (propertyName : String) : Option String :=
  match Adapter.map.lookup propertyName with
  | some property => v.mAdapters.findSome? fun a => property.valueToString a.toValues
  | none => v.mAdapters.findSome? fun a =>
      (a.moduleMap.lookup propertyName).bind fun property => property.valueToString a.toValues

/-- `get<RT>` for any other type `RT`. -/
def getTyped (v : GraphElement n) (rt : TypeId) (propertyName : String) :
    Option (rt.denote n) :=
  match Adapter.map.lookup propertyName with
  | some property => v.mAdapters.findSome? fun a => property.valueAs rt a.toValues
  | none => v.mAdapters.findSome? fun a =>
      (a.moduleMap.lookup propertyName).bind fun property => property.valueAs rt a.toValues

/-- `get<RT>(property_name)`. -/
def get (v : GraphElement n) (rt : TypeId) (propertyName : String) : Option (rt.denote n) :=
  match rt with
  | .string => v.getString propertyName
  | rt => v.getTyped rt propertyName

/-- `to_string`. -/
def toString (v : GraphElement n) : String := v.mType.toString ++ ": " ++ v.mDescription

/-- `add_adapter`. -/
def addAdapter (a : Adapter n) (v : GraphElement n) : GraphElement n :=
  { v with mAdapters := v.mAdapters ++ [a] }

/-- `m_description = s`. -/
def describe (s : String) (v : GraphElement n) : GraphElement n := { v with mDescription := s }

/-- `if (m_description.empty()) m_description = s`. -/
def describeIfEmpty (s : String) (v : GraphElement n) : GraphElement n :=
  if v.mDescription.isEmpty then v.describe s else v

/-- `m_type = t`. -/
def setType (t : Component) (v : GraphElement n) : GraphElement n := { v with mType := t }

/-- `if (m_type == UnknownComponentType::ptr()) m_type = t`. -/
def setTypeIfUnknown (t : Component) (v : GraphElement n) : GraphElement n :=
  if v.mType = .unknownComponentType then v.setType t else v

@[simp] lemma addAdapter_mAdapters (a : Adapter n) (v : GraphElement n) :
    (v.addAdapter a).mAdapters = v.mAdapters ++ [a] := rfl

@[simp] lemma describe_mAdapters (s : String) (v : GraphElement n) :
    (v.describe s).mAdapters = v.mAdapters := rfl

@[simp] lemma setType_mAdapters (t : Component) (v : GraphElement n) :
    (v.setType t).mAdapters = v.mAdapters := rfl

@[simp] lemma describeIfEmpty_mAdapters (s : String) (v : GraphElement n) :
    (v.describeIfEmpty s).mAdapters = v.mAdapters := by
  rw [describeIfEmpty]
  split <;> rfl

@[simp] lemma setTypeIfUnknown_mAdapters (t : Component) (v : GraphElement n) :
    (v.setTypeIfUnknown t).mAdapters = v.mAdapters := by
  rw [setTypeIfUnknown]
  split <;> rfl

@[simp] lemma setTypeIfUnknown_mDescription (t : Component) (v : GraphElement n) :
    (v.setTypeIfUnknown t).mDescription = v.mDescription := by
  rw [setTypeIfUnknown]
  split <;> rfl

/-- A type that is known stays. -/
lemma setTypeIfUnknown_of_ne {v : GraphElement n} (h : v.mType ≠ .unknownComponentType)
    (t : Component) : v.setTypeIfUnknown t = v := if_neg h

/-- A description that is not empty stays. -/
lemma describeIfEmpty_of_ne {v : GraphElement n} (h : v.mDescription ≠ "") (s : String) :
    v.describeIfEmpty s = v := by
  rw [describeIfEmpty, if_neg (by simpa using h)]

/-- `get<AffinityMask>("cpu_affinity_mask")`. -/
def cpuAffinityMask (v : GraphElement n) : Option (AffinityMask n) :=
  v.get .affinityMask "cpu_affinity_mask"

end GraphElement

/-! ### When the order of the adapters does not matter -/

/-- If any two answers agree, the first answer does not depend on the order. -/
lemma findSome?_perm {α β : Type} {f : α → Option β} {l l' : List α} (hperm : l.Perm l')
    (hagree : ∀ a ∈ l, ∀ b ∈ l, ∀ x y, f a = some x → f b = some y → x = y) :
    l.findSome? f = l'.findSome? f := by
  have hmem : ∀ {m : List α} {x : β}, m.findSome? f = some x → ∃ a ∈ m, f a = some x := by
    intro m x h
    obtain ⟨m₁, a, m₂, rfl, ha, -⟩ := List.findSome?_eq_some_iff.mp h
    exact ⟨a, by simp, ha⟩
  cases hl : l.findSome? f with
  | none =>
      refine (List.findSome?_eq_none_iff.mpr fun a ha => ?_).symm
      exact List.findSome?_eq_none_iff.mp hl a (hperm.mem_iff.mpr ha)
  | some x =>
      obtain ⟨a, ha, hax⟩ := hmem hl
      cases hl' : l'.findSome? f with
      | none =>
          rw [List.findSome?_eq_none_iff.mp hl' a (hperm.mem_iff.mp ha)] at hax
          exact absurd hax (by simp)
      | some y =>
          obtain ⟨b, hb, hby⟩ := hmem hl'
          rw [hagree a ha b (hperm.mem_iff.mpr hb) x y hax hby]

namespace Adapter

variable {n : ℕ}

/-- Where two adapters both answer a global property, they answer the same. -/
def Values.Agree (a b : Values n) : Prop :=
  ∀ p ∈ (Adapter.map : List (String × Property n)), ∀ x y,
    p.2.value a = some x → p.2.value b = some y → x = y

lemma Values.agree_refl (a : Values n) : Values.Agree a a := by
  intro p _ x y hx hy
  rw [hx, Option.some.injEq] at hy
  exact hy

lemma Values.Agree.symm {a b : Values n} (h : Values.Agree a b) : Values.Agree b a :=
  fun p hp x y hx hy => (h p hp y x hy hx).symm

end Adapter

namespace GraphElement

variable {n : ℕ}

/-- The two-level search with answers read by `answer`: its outcome does not
depend on the order of the adapters when any two of them agree. -/
lemma search_perm {β : Type} {answer : Property n → Adapter.Values n → Option β}
    (hanswer : ∀ (p : Property n) a b,
      (∀ x y, p.value a = some x → p.value b = some y → x = y) →
      ∀ x y, answer p a = some x → answer p b = some y → x = y)
    {as bs : List (Adapter n)} (hperm : as.Perm bs)
    (hmap : ∀ a ∈ as, a.moduleMap = Adapter.map)
    (hagree : ∀ a ∈ as, ∀ b ∈ as, a.toValues.Agree b.toValues) (name : String) :
    (match (Adapter.map : List (String × Property n)).lookup name with
      | some p => as.findSome? fun (a : Adapter n) => answer p a.toValues
      | none => as.findSome? fun (a : Adapter n) =>
          (a.moduleMap.lookup name).bind fun p => answer p a.toValues)
    = match (Adapter.map : List (String × Property n)).lookup name with
      | some p => bs.findSome? fun (a : Adapter n) => answer p a.toValues
      | none => bs.findSome? fun (a : Adapter n) =>
          (a.moduleMap.lookup name).bind fun p => answer p a.toValues := by
  cases hlookup : (Adapter.map : List (String × Property n)).lookup name with
  | some p =>
      obtain ⟨l₁, l₂, hl, -⟩ := List.lookup_eq_some_iff.mp hlookup
      have hp : (name, p) ∈ (Adapter.map : List (String × Property n)) := by rw [hl]; simp
      refine findSome?_perm hperm fun a ha b hb x y hx hy => ?_
      exact hanswer p _ _ (hagree a ha b hb _ hp) x y hx hy
  | none =>
      -- no adapter knows a name that the global map does not know
      have hnone : ∀ a ∈ as,
          ((a.moduleMap.lookup name).bind fun p => answer p a.toValues) = none := by
        intro a ha
        rw [hmap a ha, hlookup, Option.bind_none]
      rw [List.findSome?_eq_none_iff.mpr hnone, List.findSome?_eq_none_iff.mpr fun a ha =>
        hnone a (hperm.mem_iff.mpr ha)]

/-- **The order of the adapters does not matter** when any two of them agree and
none overrides `module_map`. -/
theorem get_perm {v w : GraphElement n} (hperm : v.mAdapters.Perm w.mAdapters)
    (hmap : ∀ a ∈ v.mAdapters, a.moduleMap = Adapter.map)
    (hagree : ∀ a ∈ v.mAdapters, ∀ b ∈ v.mAdapters, a.toValues.Agree b.toValues)
    (rt : TypeId) (name : String) : v.get rt name = w.get rt name := by
  have htyped : v.getTyped rt name = w.getTyped rt name := by
    refine search_perm (fun p a b h x y hx hy => ?_) hperm hmap hagree name
    simp only [Property.valueAs] at hx hy
    split at hx
    · next heq =>
        subst heq
        rw [dif_pos rfl] at hy
        exact h x y hx hy
    · exact absurd hx (by simp)
  have hstring : v.getString name = w.getString name := by
    refine search_perm (fun p a b h x y hx hy => ?_) hperm hmap hagree name
    obtain ⟨x', hx', rfl⟩ := Option.map_eq_some_iff.mp hx
    obtain ⟨y', hy', rfl⟩ := Option.map_eq_some_iff.mp hy
    rw [h x' y' hx' hy']
  cases rt <;> first | exact hstring | exact htyped

end GraphElement

end Yloc
