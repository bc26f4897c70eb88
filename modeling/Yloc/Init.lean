import Yloc.Modules.Hwloc
import Yloc.Modules.Mpi
import Yloc.Modules.Nvml
import Yloc.Modules.Rocm
import Yloc.Modules.SuperMuc

/-!
`init.cc`: the modules run one after the other on the root graph.

`ModuleSource` is a module with what its initialisation reads, `Module` adds the
flag `m_enabled`. `init` sorts the modules by `m_init_order`, runs those that
are enabled and looks at none of their statuses; a run that throws or does not
return ends it.
-/

namespace Yloc

variable {n : ℕ}

/-- A module and what its initialisation reads. -/
inductive ModuleSource where
  | hwloc (source : HwlocSource)
  | mpi (source : MpiSource)
  | superMUC (source : SupermucSource)
  | rocm (source : RocmSource)
  | nvml (source : NvmlSource)

/-- `Module::init_order`. -/
inductive InitOrder where
  | first
  | second
  deriving DecidableEq, Repr

/-- The value of the enumerator. -/
def InitOrder.toNat : InitOrder → ℕ
  | first => 0
  | second => 1

namespace ModuleSource

/-- `m_init_order`, which only `ModuleMPI` sets. -/
def initOrder : ModuleSource → InitOrder
  | mpi _ => .second
  | _ => .first

/-- `init_graph`. -/
def initGraph (S : StdSort VertexT) (g : Graph n) :
    ModuleSource → Except Abort (YlocStatus × Graph n)
  | hwloc source => .ok (source.initGraph g)
  | mpi source => source.initGraph S g
  | superMUC source => .ok (source.initGraph g)
  | rocm source => .ok (source.initGraph g)
  | nvml source => source.initGraph g

end ModuleSource

/-- `Module`. -/
structure Module where
  source : ModuleSource
  mEnabled : Bool

/-- The body of the loop of `init`. -/
def Module.run (S : StdSort VertexT) (g : Graph n) (m : Module) : Except Abort (Graph n) :=
  if m.mEnabled then (m.source.initGraph S g).map Prod.snd else .ok g

/-- The loop of `init`. -/
def runModules (S : StdSort VertexT) (modules : List Module) (g : Graph n) :
    Except Abort (Graph n) :=
  modules.foldlM (Module.run S) g

/-- The modules in the order in which `init` runs them. -/
def sortModules (S : StdSort Module) (modules : List Module) : List Module :=
  S.sort (fun m => m.source.initOrder.toNat) modules

/-- `init`, for the list that `list_modules` returns. -/
def init (S : StdSort VertexT) (S' : StdSort Module) (modules : List Module) (g : Graph n) :
    Except Abort (YlocStatus × Graph n) :=
  (runModules S (sortModules S' modules) g).map fun g => (.success, g)

/-- The modules `sources`, all of them enabled. -/
def runSources (S : StdSort VertexT) (sources : List ModuleSource) (g : Graph n) :
    Except Abort (Graph n) :=
  sources.foldlM (fun g source => (source.initGraph S g).map Prod.snd) g

lemma runSources_cons (S : StdSort VertexT) (source : ModuleSource)
    (sources : List ModuleSource) (g : Graph n) :
    runSources S (source :: sources) g =
      ((source.initGraph S g).map Prod.snd).bind (runSources S sources) := rfl

lemma runSources_append (S : StdSort VertexT) (sources sources' : List ModuleSource)
    (g : Graph n) :
    runSources S (sources ++ sources') g =
      (runSources S sources g).bind (runSources S sources') := by
  rw [runSources, List.foldlM_append]
  rfl

/-- The modules that `init` runs, in order. -/
def enabledSources (modules : List Module) : List ModuleSource :=
  (modules.filter Module.mEnabled).map Module.source

/-- **The loop of `init` runs the modules that are enabled.** -/
theorem runModules_eq (S : StdSort VertexT) (modules : List Module) (g : Graph n) :
    runModules S modules g = runSources S (enabledSources modules) g := by
  induction modules generalizing g with
  | nil => rfl
  | cons m modules ih =>
      have hcons : runModules S (m :: modules) g = (m.run S g).bind (runModules S modules) := rfl
      rw [hcons, enabledSources, Module.run]
      cases hm : m.mEnabled with
      | false =>
          rw [List.filter_cons_of_neg (by simp [hm])]
          exact ih g
      | true =>
          rw [List.filter_cons_of_pos hm, List.map_cons, runSources_cons, if_pos rfl]
          cases m.source.initGraph S g with
          | error e => rfl
          | ok result => exact ih result.2

end Yloc
