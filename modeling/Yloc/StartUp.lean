import Yloc.Shape

/-!
Modules whose data source does not come up.

ModuleMPI, ModuleSuperMUC and the test of the hwloc version return before the graph
is touched. `EXIT_ERR_ROCM` and `EXIT_ERR_NVML` do not leave `init_graph`, and
ModuleHwloc does not look at what `hwloc_topology_init` and `hwloc_topology_load`
return, so there a failure is reported as success and the graph is changed.

* `ModuleSource.isUp`: the calls that bring the source up have succeeded.
* `failsCleanly_iff`: for which modules a failure leaves the graph intact.
* `failures_leave_graph_iff`: the same for a whole run of `init`.
-/

namespace Yloc

variable {n : ℕ}

namespace ModuleSource

/-- The library calls that bring the data source up have succeeded. -/
def isUp : ModuleSource → Bool
  | hwloc source => source.checkHwlocApiVersion == .success && source.topologyInit == 0 &&
      source.topologyLoad == 0
  | mpi source => source.initialized
  | superMUC source => source.check
  | rocm source => source.rsmiInit
  | nvml source => source.nvmlInit

/-- The module looks at what has failed: it is one of MPI and SuperMUC, or hwloc
with a library of another version. -/
def looksAtFailure : ModuleSource → Bool
  | hwloc source => source.checkHwlocApiVersion != .success
  | mpi _ => true
  | superMUC _ => true
  | rocm _ => false
  | nvml _ => false

/-- `init_graph` returns a failure and leaves the graph as it was. -/
def FailsCleanly (S : StdSort VertexT) (g : Graph n) (m : ModuleSource) : Prop :=
  ∃ status, m.initGraph S g = .ok (status, g) ∧ status ≠ .success

/-- **A failure leaves the graph intact in the modules that look at it.** -/
theorem failsCleanly_iff (S : StdSort VertexT) (g : Graph n) {m : ModuleSource}
    (hdown : m.isUp = false) : m.FailsCleanly S g ↔ m.looksAtFailure = true := by
  cases m with
  | hwloc source =>
      by_cases hversion : source.checkHwlocApiVersion = .success
      · -- the version is accepted, and the other calls are not looked at
        refine iff_of_false ?_ (by simp [looksAtFailure, hversion])
        rintro ⟨status, hrun, hstatus⟩
        rw [initGraph, HwlocSource.initGraph, if_neg (by simpa using hversion)] at hrun
        exact hstatus (Prod.mk.inj (Except.ok.inj hrun)).1.symm
      · refine iff_of_true ⟨source.checkHwlocApiVersion, ?_, hversion⟩
          (by simpa [looksAtFailure] using hversion)
        rw [initGraph, HwlocSource.initGraph, if_pos hversion]
  | mpi source =>
      refine iff_of_true ⟨.initError, ?_, by decide⟩ rfl
      rw [initGraph, MpiSource.initGraph, show source.initialized = false from hdown]
      rfl
  | superMUC source =>
      refine iff_of_true ⟨.initError, ?_, by decide⟩ rfl
      rw [initGraph, SupermucSource.initGraph_eq, show source.check = false from hdown]
      rfl
  | rocm source =>
      refine iff_of_false ?_ (by simp [looksAtFailure])
      rintro ⟨status, hrun, hstatus⟩
      exact hstatus (Prod.mk.inj (Except.ok.inj hrun)).1.symm
  | nvml source =>
      refine iff_of_false ?_ (by simp [looksAtFailure])
      rintro ⟨status, hrun, hstatus⟩
      obtain ⟨state, -, hok⟩ := Except.exists_of_bind hrun
      exact hstatus (Prod.mk.inj (Except.ok.inj hok)).1.symm

end ModuleSource

/-- Modules that look at their failures can be left out of a run when they are down. -/
lemma runModules_filter (S : StdSort VertexT) {modules : List Module}
    (hlooks : ∀ m ∈ modules, m.source.isUp = false → m.source.looksAtFailure = true)
    (g : Graph n) :
    runModules S modules g = runModules S (modules.filter fun m => m.source.isUp) g := by
  refine foldlM_filter_of_id (fun m hm hdown g => ?_) g
  obtain ⟨status, hrun, -⟩ :=
    (ModuleSource.failsCleanly_iff S g hdown).mpr (hlooks m hm hdown)
  rw [Module.run, hrun]
  split <;> rfl

/-- **When failing modules leave the topology intact**: every module that is down
fails cleanly and `init` does what it does with the modules that are up, if and only
if every module that is down looks at its failure. -/
theorem failures_leave_graph_iff (S : StdSort VertexT) (S' : StdSort Module)
    (modules : List Module) (g : Graph n) :
    ((∀ m ∈ modules, m.source.isUp = false → m.source.FailsCleanly S g) ∧
      init S S' modules g =
        (runModules S ((sortModules S' modules).filter fun m => m.source.isUp) g).map
          fun g => (.success, g)) ↔
    ∀ m ∈ modules, m.source.isUp = false → m.source.looksAtFailure = true := by
  constructor
  · rintro ⟨hclean, -⟩ m hm hdown
    exact (ModuleSource.failsCleanly_iff S g hdown).mp (hclean m hm hdown)
  · intro hlooks
    refine ⟨fun m hm hdown => (ModuleSource.failsCleanly_iff S g hdown).mpr (hlooks m hm hdown),
      ?_⟩
    have hsorted : ∀ m ∈ sortModules S' modules,
        m.source.isUp = false → m.source.looksAtFailure = true := fun m hm =>
      hlooks m ((S'.perm _ _).mem_iff.mp hm)
    rw [init, runModules_filter S hsorted]

/-- ROCm SMI that does not start and reports no device. -/
def downRocm : RocmSource where
  rsmiInit := false
  bdfid := 0
  devices := []
  hops _ _ := 0

/-- A failure of `rsmi_init` is returned as success. -/
theorem not_failsCleanly_downRocm :
    (ModuleSource.rocm downRocm).isUp = false ∧
      ¬ (ModuleSource.rocm downRocm).FailsCleanly .insertion ({} : Graph 2) := by
  refine ⟨rfl, ?_⟩
  rintro ⟨status, hrun, hstatus⟩
  exact hstatus (Prod.mk.inj (Except.ok.inj hrun)).1.symm

end Yloc
