import Yloc.Shape
import Yloc.Lib.Spmd

/-!
The ranks of a job, which build their graphs in parallel.

ModuleSuperMUC and ModuleMPI gather host names and CPU sets with `MPI_Allgather`.
Every rank decides from its own host name whether it takes part in the collective of
SuperMUC, so a job in which some names follow the convention and some do not has
ranks that match it with a collective of ModuleMPI.

* `supermucProgram`, `mpiProgram`, `initProgram`: the modules with their collectives.
* `MpiJob`: the ranks of a job.
* `collectives_matched_iff`: when the collectives of the ranks match in all states.
* `MpiJob.runSources_of_reachable`: a rank that has built its graph has built it from
  the host names and CPU sets of all ranks.
* `MpiJob.finished_iff`: when all ranks come to the end of `init`.
-/

namespace Yloc

open Spmd

/-! ### The collectives -/

/-- Where a collective is called. -/
inductive CallSite where
  | supermucHostnames
  | mpiHostnames
  | mpiCpusets
  deriving DecidableEq, Repr

/-- `MPI_Datatype`. -/
inductive MpiDatatype where
  | char
  | byte
  deriving DecidableEq, Repr

/-- A call of `MPI_Allgather` on `MPI_COMM_WORLD`, with the count and the type that it
sends and receives. -/
structure Allgather where
  site : CallSite
  count : ℕ
  type : MpiDatatype
  deriving DecidableEq, Repr

/-- What a rank sends. -/
def CallSite.Sent : CallSite → Type
  | supermucHostnames => String
  | mpiHostnames => String
  | mpiCpusets => CpuSet

/-- `MPI_Allgather` on `ranks` ranks: everyone receives what everyone has sent. -/
abbrev mpiCollectives (ranks : ℕ) : Collectives (Fin ranks) where
  Call := Allgather
  Sent c := c.site.Sent
  Received c := Fin ranks → c.site.Sent
  gather _ sent := sent

/-- The call of `make_supermuc_graph`. -/
def supermucAllgather : Allgather := ⟨.supermucHostnames, 32, .char⟩

/-- The first call of `make_mpi_graph`, `MPI_MAX_PROCESSOR_NAME` being a constant of
the library. -/
def hostnamesAllgather (mpiMaxProcessorName : ℕ) : Allgather :=
  ⟨.mpiHostnames, mpiMaxProcessorName, .char⟩

/-- The second call of `make_mpi_graph`, of `sizeof(cpu_set_t)` bytes. -/
def cpusetsAllgather : Allgather := ⟨.mpiCpusets, cpuSetSize / 8, .byte⟩

/-! ### The modules with their collectives -/

/-- What a rank learns from MPI and the operating system. -/
structure RankEnv where
  /-- `MPI_Initialized` -/
  initialized : Bool
  /-- `MPI_Get_processor_name` -/
  hostname : String
  /-- `sched_getaffinity` -/
  cpuset : CpuSet

section

variable {ranks n : ℕ}

/-- The programs of ranks. -/
abbrev RankProg (ranks : ℕ) (α : Type) : Type := Prog (mpiCollectives ranks) Abort α

/-- `ModuleSuperMUC::init_graph`. -/
def supermucProgram (env : RankEnv) (g : Graph n) : RankProg ranks (YlocStatus × Graph n) :=
  if !env.initialized then .pure (.initError, g)
  else if env.hostname.length ≠ 12 then .pure (.initError, g)
  else if sscanfFields ['i', 'r', 'c', 's'] env.hostname.toList ≠ 4 then .pure (.initError, g)
  else .call supermucAllgather env.hostname fun hostnames : Fin ranks → String =>
    .pure (.success, makeSupermucGraph g (List.ofFn hostnames))

/-- What `ModuleSuperMUC` has read when the ranks have the names `hostnames`. -/
def RankEnv.supermuc (env : RankEnv) (hostnames : Fin ranks → String) : SupermucSource where
  initialized := env.initialized
  hostname := env.hostname
  hostnames := List.ofFn hostnames

/-- What `ModuleMPI` has read when the ranks have the names `hostnames` and the CPU
sets `cpusets`. -/
def RankEnv.mpi (env : RankEnv) (hostnames : Fin ranks → String) (cpusets : Fin ranks → CpuSet) :
    MpiSource where
  initialized := env.initialized
  hostname := env.hostname
  nbproc := ranks
  hostnames := hostnames
  cpusets := cpusets

/-- `ModuleMPI::init_graph`. -/
def mpiProgram (S : StdSort VertexT) (mpiMaxProcessorName : ℕ) (env : RankEnv) (g : Graph n) :
    RankProg ranks (YlocStatus × Graph n) :=
  if !env.initialized then .pure (.initError, g)
  else
    .call (hostnamesAllgather mpiMaxProcessorName) env.hostname
      fun hostnames : Fin ranks → String =>
        .call cpusetsAllgather env.cpuset fun cpusets : Fin ranks → CpuSet =>
          .ofExcept <| (makeMpiGraph S (env.mpi hostnames cpusets) g).map fun g => (.success, g)

/-- `init_graph`. The other modules have no collectives. -/
def ModuleSource.program (S : StdSort VertexT) (mpiMaxProcessorName : ℕ) (env : RankEnv)
    (g : Graph n) : ModuleSource → RankProg ranks (YlocStatus × Graph n)
  | superMUC _ => supermucProgram env g
  | mpi _ => mpiProgram S mpiMaxProcessorName env g
  | source => .compute (.ofExcept (source.initGraph S g))

/-- The loop of `init`, with the modules that are enabled in the order in which they
are run. -/
def initProgram (S : StdSort VertexT) (mpiMaxProcessorName : ℕ) (env : RankEnv) :
    List ModuleSource → Graph n → RankProg ranks (Graph n)
  | [], g => .pure g
  | source :: sources, g =>
      (source.program S mpiMaxProcessorName env g).bind fun result =>
        initProgram S mpiMaxProcessorName env sources result.2

/-! ### What the programs issue and compute -/

/-- The rank takes part in the collective of SuperMUC. -/
def RankEnv.check (env : RankEnv) : Bool := env.initialized && followsConvention env.hostname

/-- What the rank sends in a collective. -/
def RankEnv.sent (env : RankEnv) (c : Allgather) : c.site.Sent :=
  match c.site with
  | .supermucHostnames => env.hostname
  | .mpiHostnames => env.hostname
  | .mpiCpusets => env.cpuset

/-- The collectives of a module. -/
def ModuleSource.collectives (mpiMaxProcessorName : ℕ) (env : RankEnv) :
    ModuleSource → List Allgather
  | superMUC _ => if env.check then [supermucAllgather] else []
  | mpi _ =>
      if env.initialized then [hostnamesAllgather mpiMaxProcessorName, cpusetsAllgather] else []
  | _ => []

/-- A module with what rank `i` reads and gathers when the ranks are those of `envs`. -/
def ModuleSource.gathered (envs : Fin ranks → RankEnv) (i : Fin ranks) :
    ModuleSource → ModuleSource
  | superMUC _ => .superMUC ((envs i).supermuc fun j => (envs j).hostname)
  | mpi _ => .mpi ((envs i).mpi (fun j => (envs j).hostname) fun j => (envs j).cpuset)
  | source => source

/-- The three tests in one. -/
lemma supermucProgram_eq (env : RankEnv) (g : Graph n) :
    (supermucProgram env g : RankProg ranks _) =
      if env.check then .call supermucAllgather env.hostname fun hostnames : Fin ranks → String =>
        .pure (.success, makeSupermucGraph g (List.ofFn hostnames))
      else .pure (.initError, g) := by
  rw [supermucProgram, RankEnv.check, followsConvention]
  split_ifs <;> simp_all

lemma ofExcept_issues {α : Type} (x : Except Abort α) (env : RankEnv) :
    (Prog.ofExcept x : RankProg ranks α).Issues env.sent [] := by
  cases x with
  | error e => exact trivial
  | ok a => rfl

/-- A module issues its collectives. -/
lemma ModuleSource.program_issues (S : StdSort VertexT) (mpiMaxProcessorName : ℕ) (env : RankEnv)
    (g : Graph n) (source : ModuleSource) :
    (source.program S mpiMaxProcessorName env g : RankProg ranks _).Issues env.sent
      (source.collectives mpiMaxProcessorName env) := by
  cases source with
  | superMUC source =>
      rw [program, supermucProgram_eq, collectives]
      cases env.check with
      | true => exact ⟨[], rfl, rfl, fun hostnames => rfl⟩
      | false => exact rfl
  | mpi source =>
      rw [program, mpiProgram, collectives]
      cases env.initialized with
      | true => exact ⟨_, rfl, rfl, fun hostnames => ⟨_, rfl, rfl, fun cpusets =>
          ofExcept_issues _ env⟩⟩
      | false => exact rfl
  | _ => exact ofExcept_issues _ env

/-- **A rank issues the collectives of its modules**, unless a module throws before. -/
theorem initProgram_issues (S : StdSort VertexT) (mpiMaxProcessorName : ℕ) (env : RankEnv)
    (sources : List ModuleSource) (g : Graph n) :
    (initProgram S mpiMaxProcessorName env sources g : RankProg ranks _).Issues env.sent
      (sources.flatMap (ModuleSource.collectives mpiMaxProcessorName env)) := by
  induction sources generalizing g with
  | nil => rfl
  | cons source sources ih =>
      exact (source.program_issues S mpiMaxProcessorName env g).bind fun result => ih result.2

/-- A module with its collectives computes what it does on the gathered values. -/
lemma ModuleSource.run_program (S : StdSort VertexT) (mpiMaxProcessorName : ℕ)
    (envs : Fin ranks → RankEnv) (i : Fin ranks) (g : Graph n) (source : ModuleSource) :
    (source.program S mpiMaxProcessorName (envs i) g : RankProg ranks _).run
        (Spmd.gathered fun j => (envs j).sent) = (source.gathered envs i).initGraph S g := by
  cases source with
  | superMUC source =>
      rw [program, supermucProgram_eq, gathered, initGraph, SupermucSource.initGraph_eq,
        show (envs i).check = ((envs i).supermuc fun j => (envs j).hostname).check from rfl]
      cases ((envs i).supermuc fun j => (envs j).hostname).check <;> rfl
  | mpi source =>
      rw [program, mpiProgram, gathered, initGraph, MpiSource.initGraph,
        show (envs i).initialized = ((envs i).mpi (fun j => (envs j).hostname)
          fun j => (envs j).cpuset).initialized from rfl]
      cases ((envs i).mpi (fun j => (envs j).hostname) fun j => (envs j).cpuset).initialized with
      | false => rfl
      | true =>
          have hrun := Prog.run_ofExcept (C := mpiCollectives ranks)
            (Spmd.gathered fun j => (envs j).sent)
            ((makeMpiGraph S ((envs i).mpi (fun j => (envs j).hostname)
              fun j => (envs j).cpuset) g).map fun g => (YlocStatus.success, g))
          refine hrun.trans ?_
          cases makeMpiGraph S ((envs i).mpi (fun j => (envs j).hostname)
            fun j => (envs j).cpuset) g <;> rfl
  | _ => exact Prog.run_ofExcept _ _

/-- **The program of a rank computes the run of its modules** on the gathered values. -/
theorem run_initProgram (S : StdSort VertexT) (mpiMaxProcessorName : ℕ)
    (envs : Fin ranks → RankEnv) (i : Fin ranks) (sources : List ModuleSource) (g : Graph n) :
    (initProgram S mpiMaxProcessorName (envs i) sources g : RankProg ranks _).run
        (Spmd.gathered fun j => (envs j).sent) =
      runSources S (sources.map (ModuleSource.gathered envs i)) g := by
  induction sources generalizing g with
  | nil => rfl
  | cons source sources ih =>
      rw [initProgram, Prog.run_bind, ModuleSource.run_program, List.map_cons, runSources_cons]
      cases (source.gathered envs i).initGraph S g with
      | error e => rfl
      | ok result => exact ih result.2

/-- Modules without collectives, one of which throws, end the program before it issues
any. -/
lemma initProgram_issues_of_throws (S : StdSort VertexT) (mpiMaxProcessorName : ℕ)
    {env : RankEnv} {before : List ModuleSource}
    (hbefore : ∀ source ∈ before, source.initOrder = .first ∧
      source.collectives mpiMaxProcessorName env = [])
    (hthrows : ¬ ∀ source ∈ before, source.IsFirst) (after : List ModuleSource) (g : Graph n) :
    (initProgram S mpiMaxProcessorName env (before ++ after) g : RankProg ranks _).Issues
      env.sent [] := by
  induction before generalizing g with
  | nil => exact absurd (by simp) hthrows
  | cons source before ih =>
      have hrest : ∀ source ∈ before, source.initOrder = .first ∧
          source.collectives mpiMaxProcessorName env = [] := fun source' h' =>
        hbefore source' (List.mem_cons_of_mem _ h')
      obtain ⟨horder, hnone⟩ := hbefore source (by simp)
      rw [List.cons_append, initProgram]
      by_cases hfirst : source.IsFirst
      · have hissues : (source.program S mpiMaxProcessorName env g : RankProg ranks _).Issues
            env.sent [] := hnone ▸ source.program_issues S mpiMaxProcessorName env g
        refine hissues.bind fun result => ih hrest (fun hall => hthrows fun source' h' => ?_) _
        rcases List.mem_cons.mp h' with rfl | h'
        · exact hfirst
        · exact hall source' h'
      · obtain ⟨e, he⟩ := ModuleSource.exists_initGraph_error S horder hfirst g
        have hprogram : source.program S mpiMaxProcessorName env g =
            (.compute (.abort e) : RankProg ranks _) := by
          cases source with
          | nvml source => exact congrArg (fun x => Prog.compute (.ofExcept x)) he
          | mpi source => cases horder
          | _ => exact absurd trivial hfirst
        rw [hprogram]
        exact trivial

/-- A module that does not throw issues its collectives and returns. -/
lemma ModuleSource.program_issuesAll (S : StdSort VertexT) (mpiMaxProcessorName : ℕ)
    (env : RankEnv) (g : Graph n) {source : ModuleSource} (hfirst : source.IsFirst) :
    (source.program S mpiMaxProcessorName env g : RankProg ranks _).IssuesAll
        (source.collectives mpiMaxProcessorName env) ∧
      (source.program S mpiMaxProcessorName env g : RankProg ranks _).Returns := by
  obtain ⟨result, hrun⟩ := source.exists_initGraph S hfirst g
  have hcompute : ∀ x : Except Abort (YlocStatus × Graph n), x = .ok result →
      (.compute (.ofExcept x) : RankProg ranks _).IssuesAll [] ∧
        (.compute (.ofExcept x) : RankProg ranks _).Returns := by
    rintro x rfl
    exact ⟨rfl, trivial⟩
  cases source with
  | mpi source => exact absurd hfirst id
  | superMUC source =>
      rw [program, supermucProgram_eq, collectives]
      cases env.check with
      | true => exact ⟨⟨[], rfl, fun hostnames => rfl⟩, fun hostnames => trivial⟩
      | false => exact ⟨rfl, trivial⟩
  | _ => exact hcompute _ hrun

/-- ModuleMPI issues its collectives before it can throw. -/
lemma mpiProgram_issuesAll (S : StdSort VertexT) (mpiMaxProcessorName : ℕ) (env : RankEnv)
    (g : Graph n) (mp : MpiSource) :
    (mpiProgram S mpiMaxProcessorName env g : RankProg ranks _).IssuesAll
      (ModuleSource.collectives mpiMaxProcessorName env (.mpi mp)) := by
  have hend : ∀ x : Except Abort (YlocStatus × Graph n),
      (.ofExcept x : RankProg ranks _).IssuesAll [] := by
    intro x
    cases x <;> rfl
  rw [mpiProgram, ModuleSource.collectives]
  cases env.initialized with
  | true => exact ⟨_, rfl, fun hostnames => ⟨_, rfl, fun cpusets => hend _⟩⟩
  | false => exact rfl

/-- **A rank issues all its collectives** if no module throws before ModuleMPI. -/
theorem initProgram_issuesAll (S : StdSort VertexT) (mpiMaxProcessorName : ℕ) (env : RankEnv)
    {before : List ModuleSource} (hfirst : ∀ source ∈ before, source.IsFirst) (mp : MpiSource)
    (g : Graph n) :
    (initProgram S mpiMaxProcessorName env (before ++ [ModuleSource.mpi mp]) g :
      RankProg ranks _).IssuesAll ((before ++ [ModuleSource.mpi mp]).flatMap
        (ModuleSource.collectives mpiMaxProcessorName env)) := by
  induction before generalizing g with
  | nil =>
      rw [List.nil_append, List.flatMap_singleton]
      exact (mpiProgram_issuesAll S mpiMaxProcessorName env g mp).bind_pure fun result => ⟨_, rfl⟩
  | cons source before ih =>
      obtain ⟨hissues, hreturns⟩ :
          (source.program S mpiMaxProcessorName env g : RankProg ranks _).IssuesAll _ ∧ _ :=
        ModuleSource.program_issuesAll S mpiMaxProcessorName env g (hfirst source (by simp))
      exact hissues.bind hreturns fun result =>
        ih (fun source' h => hfirst source' (List.mem_cons_of_mem _ h)) result.2

/-- A module without collectives that does not throw goes on to the next one. -/
lemma ModuleSource.exists_program_bind (S : StdSort VertexT) (mpiMaxProcessorName : ℕ)
    {env : RankEnv} (source : ModuleSource) (hfirst : source.IsFirst)
    (hnone : source.collectives mpiMaxProcessorName env = []) (g : Graph n) :
    ∃ result : YlocStatus × Graph n, ∀ {α : Type} (f : YlocStatus × Graph n → RankProg ranks α),
      ((source.program S mpiMaxProcessorName env g).bind f).firstCall = (f result).firstCall := by
  obtain ⟨result, hrun⟩ := source.exists_initGraph S hfirst g
  cases source with
  | mpi source => exact absurd hfirst id
  | superMUC source =>
      refine ⟨(.initError, g), fun f => ?_⟩
      rw [collectives] at hnone
      rw [program, supermucProgram_eq, if_neg fun hcheck => by simp [hcheck] at hnone]
      rfl
  | _ =>
      refine ⟨result, fun f => ?_⟩
      exact congrArg (fun x => ((Prog.compute (.ofExcept x)).bind f).firstCall) hrun

/-- The first collective of a module. -/
lemma ModuleSource.firstCall_program (S : StdSort VertexT) {mpiMaxProcessorName : ℕ}
    {env : RankEnv} {source : ModuleSource} {c : Allgather} {cs : List Allgather}
    (hc : source.collectives mpiMaxProcessorName env = c :: cs) (g : Graph n) :
    (source.program S mpiMaxProcessorName env g : RankProg ranks _).firstCall = some c := by
  cases source with
  | superMUC source =>
      rw [collectives] at hc
      rw [program, supermucProgram_eq]
      split at hc
      · next hcheck =>
          rw [if_pos hcheck, ← (List.cons.inj hc).1]
          rfl
      · cases hc
  | mpi source =>
      rw [collectives] at hc
      rw [program, mpiProgram]
      split at hc
      · next hinitialized =>
          rw [hinitialized, ← (List.cons.inj hc).1]
          rfl
      · cases hc
  | _ => cases hc

/-- After modules without collectives that do not throw, the first collective is that of
the next module. -/
lemma firstCall_initProgram (S : StdSort VertexT) {mpiMaxProcessorName : ℕ} {env : RankEnv}
    {before : List ModuleSource}
    (hbefore : ∀ source ∈ before, source.IsFirst ∧
      source.collectives mpiMaxProcessorName env = [])
    {source : ModuleSource} {c : Allgather} {cs : List Allgather}
    (hc : source.collectives mpiMaxProcessorName env = c :: cs) (after : List ModuleSource)
    (g : Graph n) :
    (initProgram S mpiMaxProcessorName env (before ++ source :: after) g :
      RankProg ranks _).firstCall = some c := by
  induction before generalizing g with
  | nil => exact Prog.firstCall_bind (source.firstCall_program S hc g) _
  | cons source' before ih =>
      obtain ⟨hfirst, hnone⟩ := hbefore source' (by simp)
      obtain ⟨result, hresult⟩ := source'.exists_program_bind S mpiMaxProcessorName hfirst hnone g
      rw [List.cons_append, initProgram, hresult]
      exact ih (fun s hs => hbefore s (List.mem_cons_of_mem _ hs)) result.2

end

/-! ### The ranks of a job -/

/-- The ranks of a job, all of which run `init` with ModuleSuperMUC and ModuleMPI
enabled. -/
structure MpiJob where
  ranks : ℕ
  /-- `MPI_MAX_PROCESSOR_NAME` -/
  mpiMaxProcessorName : ℕ
  env : Fin ranks → RankEnv
  /-- The number of CPUs of the rank's host. -/
  nprocsOnline : Fin ranks → ℕ
  /-- `list_modules` -/
  modules : Fin ranks → List Module
  /-- `std::sort` -/
  sort : Fin ranks → StdSort Module
  kinds_nodup : ∀ i, ((modules i).map fun m => m.source.kind).Nodup
  superMUC_enabled : ∀ i, ∃ source, ⟨.superMUC source, true⟩ ∈ modules i
  mpi_enabled : ∀ i, ∃ source, ⟨.mpi source, true⟩ ∈ modules i

namespace MpiJob

variable (job : MpiJob) (S : StdSort VertexT)

/-- What a rank runs, in order. -/
def sources (i : Fin job.ranks) : List ModuleSource :=
  enabledSources (sortModules (job.sort i) (job.modules i))

/-- The program of a rank, on the empty root graph. -/
def program (i : Fin job.ranks) : RankProg job.ranks (Graph (job.nprocsOnline i)) :=
  initProgram S job.mpiMaxProcessorName (job.env i) (job.sources i) {}

/-- What a rank runs before the module of kind `k`. -/
def before (i : Fin job.ranks) (k : ModuleSource.Kind) : List ModuleSource :=
  (job.sources i).takeWhile fun source => source.kind ≠ k

/-- No module of the rank throws before the one of kind `k`. -/
def Reaches (i : Fin job.ranks) (k : ModuleSource.Kind) : Prop :=
  ∀ source ∈ job.before i k, source.IsFirst

/-- ModuleSuperMUC comes before ModuleMPI, and the other modules are neither. -/
lemma exists_sources (i : Fin job.ranks) : ∃ before sm between mp,
    job.sources i = before ++ .superMUC sm :: (between ++ [.mpi mp]) ∧
    job.before i .superMUC = before ∧ job.before i .mpi = before ++ .superMUC sm :: between ∧
    ∀ source ∈ before ++ between, source.kind ≠ .superMUC ∧ source.initOrder = .first := by
  obtain ⟨firsts, hfirsts, hsources⟩ := exists_firsts (job.sort i) (job.kinds_nodup i)
  obtain ⟨sm, hsm⟩ := job.superMUC_enabled i
  obtain ⟨mp, hmp⟩ := job.mpi_enabled i
  rw [← mem_enabledSources (S := job.sort i)] at hsm hmp
  have hnodup := enabledSources_kinds_nodup (job.sort i) (job.kinds_nodup i)
  rcases hsources with hsources | ⟨mp, hsources⟩
  · rw [hsources] at hmp
    cases hfirsts _ hmp
  · rw [hsources] at hsm hnodup
    have hmem : .superMUC sm ∈ firsts := by simpa using hsm
    obtain ⟨before, between, rfl⟩ := List.append_of_mem hmem
    have hsplit : job.sources i = before ++ .superMUC sm :: (between ++ [.mpi mp]) := by
      rw [sources, hsources, List.append_assoc, List.cons_append]
    have hsuperMUC : ∀ source ∈ before ++ between, source.kind ≠ .superMUC := by
      intro source hmem hkind
      rw [List.map_append] at hnodup
      have hnodup' := hnodup.of_append_left
      rw [List.map_append, List.map_cons, List.nodup_middle, List.nodup_cons,
        ← List.map_append] at hnodup'
      exact hnodup'.1 (List.mem_map.mpr ⟨source, hmem, hkind⟩)
    have hmpi : ∀ source ∈ before ++ .superMUC sm :: between, source.kind ≠ .mpi := by
      intro source hmem hkind
      have horder := hfirsts source hmem
      cases source with
      | mpi source => cases horder
      | _ => cases hkind
    refine ⟨before, sm, between, mp, hsplit, ?_, ?_, fun source hmem => ⟨hsuperMUC source hmem,
      hfirsts source ?_⟩⟩
    · have hall : ∀ source ∈ before, decide (source.kind ≠ .superMUC) = true := fun source hmem =>
        decide_eq_true (hsuperMUC source (List.mem_append_left _ hmem))
      rw [MpiJob.before, hsplit, List.takeWhile_append_of_pos hall]
      simp [ModuleSource.kind]
    · have hall : ∀ source ∈ before ++ .superMUC sm :: between,
          decide (source.kind ≠ .mpi) = true := fun source hmem => decide_eq_true (hmpi source hmem)
      rw [MpiJob.before, sources, hsources, List.takeWhile_append_of_pos hall]
      simp [ModuleSource.kind]
    · rcases List.mem_append.mp hmem with hmem | hmem
      · exact List.mem_append_left _ hmem
      · exact List.mem_append_right _ (List.mem_cons_of_mem _ hmem)

/-- The collectives of a rank that gets to them. -/
def calls (i : Fin job.ranks) : List Allgather :=
  if (job.env i).check then
    [supermucAllgather, hostnamesAllgather job.mpiMaxProcessorName, cpusetsAllgather]
  else [hostnamesAllgather job.mpiMaxProcessorName, cpusetsAllgather]

/-- The rank gets to its first collective: that of SuperMUC if its host name follows the
convention, else the first of ModuleMPI. -/
def Collects (i : Fin job.ranks) : Prop :=
  (job.env i).initialized = true ∧
    job.Reaches i (if followsConvention (job.env i).hostname then .superMUC else .mpi)

variable {job}

/-- Modules that are neither SuperMUC nor MPI have no collectives. -/
lemma collectives_eq_nil {m : ℕ} {env : RankEnv} {source : ModuleSource}
    (hkind : source.kind ≠ .superMUC) (horder : source.initOrder = .first) :
    source.collectives m env = [] := by
  cases source with
  | superMUC source => exact absurd rfl hkind
  | mpi source => cases horder
  | _ => rfl

lemma flatMap_collectives_eq_nil {m : ℕ} {env : RankEnv} {sources : List ModuleSource}
    (h : ∀ source ∈ sources, source.kind ≠ .superMUC ∧ source.initOrder = .first) :
    sources.flatMap (ModuleSource.collectives m env) = [] :=
  List.flatMap_eq_nil_iff.mpr fun source hmem =>
    collectives_eq_nil (h source hmem).1 (h source hmem).2

/-- The collectives of all modules of a rank. -/
lemma flatMap_collectives (i : Fin job.ranks) :
    (job.sources i).flatMap (ModuleSource.collectives job.mpiMaxProcessorName (job.env i)) =
      if (job.env i).initialized then job.calls i else [] := by
  obtain ⟨before, sm, between, mp, hsources, -, -, hothers⟩ := job.exists_sources i
  rw [hsources, List.flatMap_append, List.flatMap_cons, List.flatMap_append,
    flatMap_collectives_eq_nil fun source hmem => hothers source (List.mem_append_left _ hmem),
    flatMap_collectives_eq_nil fun source hmem => hothers source (List.mem_append_right _ hmem)]
  by_cases hinitialized : (job.env i).initialized = true <;>
    by_cases hname : followsConvention (job.env i).hostname = true <;>
      simp [ModuleSource.collectives, calls, RankEnv.check, hinitialized, hname]

/-- The modules before the first collective of a rank are of order FIRST and have none. -/
lemma before_collectives (i : Fin job.ranks) : ∀ source ∈ job.before i
      (if followsConvention (job.env i).hostname then .superMUC else .mpi),
    source.initOrder = .first ∧
      source.collectives job.mpiMaxProcessorName (job.env i) = [] := by
  obtain ⟨before, sm, between, mp, -, hbefore, hbefore', hothers⟩ := job.exists_sources i
  have hnone : ∀ source ∈ before ++ between, source.initOrder = .first ∧
      source.collectives job.mpiMaxProcessorName (job.env i) = [] := fun source hmem =>
    ⟨(hothers source hmem).2, collectives_eq_nil (hothers source hmem).1 (hothers source hmem).2⟩
  cases hname : followsConvention (job.env i).hostname with
  | true =>
      rw [if_pos rfl, hbefore]
      exact fun source hmem => hnone source (List.mem_append_left _ hmem)
  | false =>
      rw [if_neg (by simp), hbefore']
      intro source hmem
      rcases List.mem_append.mp hmem with hmem | hmem
      · exact hnone source (List.mem_append_left _ hmem)
      · rcases List.mem_cons.mp hmem with rfl | hmem
        · exact ⟨rfl, by simp [ModuleSource.collectives, RankEnv.check, hname]⟩
        · exact hnone source (List.mem_append_right _ hmem)

/-- A rank runs the modules before its first collective, and then the module with it. -/
lemma exists_sources_eq (i : Fin job.ranks) (hinitialized : (job.env i).initialized = true) :
    ∃ source after c cs, job.sources i = job.before i
        (if followsConvention (job.env i).hostname then .superMUC else .mpi) ++ source :: after ∧
      source.collectives job.mpiMaxProcessorName (job.env i) = c :: cs ∧
      (job.calls i).head? = some c := by
  obtain ⟨before, sm, between, mp, hsources, hbefore, hbefore', -⟩ := job.exists_sources i
  cases hname : followsConvention (job.env i).hostname with
  | true =>
      have hcheck : (job.env i).check = true := by simp [RankEnv.check, hinitialized, hname]
      exact ⟨_, _, _, _, by rw [if_pos rfl, hbefore, hsources],
        by rw [ModuleSource.collectives, if_pos hcheck], by rw [calls, if_pos hcheck]; rfl⟩
  | false =>
      have hcheck : ¬ (job.env i).check = true := by simp [RankEnv.check, hname]
      refine ⟨.mpi mp, [], _, _, ?_, by rw [ModuleSource.collectives, if_pos hinitialized],
        by rw [calls, if_neg hcheck]; rfl⟩
      rw [if_neg (by simp), hbefore', hsources, List.append_assoc, List.cons_append]

/-- A rank issues its collectives, or none if it does not get to the first. -/
theorem exists_issues (i : Fin job.ranks) : ∃ calls : List Allgather,
    (job.program S i).Issues (job.env i).sent calls ∧
      (calls = [] ∨ job.Collects i ∧ calls = job.calls i) := by
  have hissues : (job.program S i).Issues (job.env i).sent
      (if (job.env i).initialized then job.calls i else []) := by
    rw [← flatMap_collectives]
    exact initProgram_issues S _ _ _ _
  by_cases hinitialized : (job.env i).initialized = true
  · rw [if_pos hinitialized] at hissues
    by_cases hreaches : job.Reaches i
        (if followsConvention (job.env i).hostname then .superMUC else .mpi)
    · exact ⟨_, hissues, .inr ⟨⟨hinitialized, hreaches⟩, rfl⟩⟩
    · obtain ⟨source, after, c, cs, hsources, -⟩ := exists_sources_eq i hinitialized
      refine ⟨[], ?_, .inl rfl⟩
      rw [program, hsources]
      exact initProgram_issues_of_throws S _ (before_collectives i) hreaches _ _
  · rw [if_neg hinitialized] at hissues
    exact ⟨[], hissues, .inl rfl⟩

/-- A rank that gets to its first collective begins with it. -/
theorem firstCall_program (i : Fin job.ranks) (h : job.Collects i) :
    (job.program S i).firstCall = (job.calls i).head? := by
  obtain ⟨source, after, c, cs, hsources, hc, hhead⟩ := exists_sources_eq i h.1
  rw [program, hsources, hhead]
  exact firstCall_initProgram S
    (fun source hmem => ⟨h.2 source hmem, (before_collectives i source hmem).2⟩) hc after _

end MpiJob

lemma MpiJob.check_eq {job : MpiJob} {i : Fin job.ranks} (h : job.Collects i) :
    (job.env i).check = followsConvention (job.env i).hostname := by
  rw [RankEnv.check, h.1, Bool.true_and]

/-- The calls of the ranks agree if the names of those that get to a collective do. -/
lemma MpiJob.exists_agree (S : StdSort VertexT) {job : MpiJob}
    (h : ∀ i j, job.Collects i → job.Collects j → followsConvention (job.env i).hostname =
      followsConvention (job.env j).hostname) :
    ∃ calls : Fin job.ranks → List Allgather,
      (∀ i, (job.program S i).Issues (job.env i).sent (calls i)) ∧
        Agree (C := mpiCollectives job.ranks) calls := by
  choose calls hissues hcalls using fun i : Fin job.ranks => MpiJob.exists_issues S i
  refine ⟨calls, hissues, ?_⟩
  intro k i j (c : Allgather) (c' : Allgather) (hc : (calls i)[k]? = some c)
    (hc' : (calls j)[k]? = some c')
  rcases hcalls i with hi | ⟨hi, hcalls_i⟩
  · simp [hi] at hc
  · rcases hcalls j with hj | ⟨hj, hcalls_j⟩
    · simp [hj] at hc'
    · rw [hcalls_i, MpiJob.calls, check_eq hi, h i j hi hj, ← check_eq hj] at hc
      rw [hcalls_j, MpiJob.calls] at hc'
      exact Option.some.inj (hc.symm.trans hc')

/-- **When the collectives of the ranks match**, in every state that they can come to: any
two ranks that get to a collective have host names that both follow the convention of
SuperMUC or both do not. Only calls that have been issued are compared; that no rank waits
for one that is never issued is `MpiJob.finished_iff`. -/
theorem collectives_matched_iff (S : StdSort VertexT) (job : MpiJob) :
    (∀ σ, Reachable (job.program S) σ → Matched σ) ↔
      ∀ i j, job.Collects i → job.Collects j → followsConvention (job.env i).hostname =
        followsConvention (job.env j).hostname := by
  constructor
  · intro h i j hi hj
    -- both can come to their first collectives, which name the module
    have hfirst : ∀ i, job.Collects i → ∃ c : Allgather, (job.program S i).firstCall = some c ∧
        (c.site = .supermucHostnames ↔ followsConvention (job.env i).hostname = true) := by
      intro i hi
      rw [MpiJob.firstCall_program S i hi, ← MpiJob.check_eq hi, MpiJob.calls]
      cases (job.env i).check with
      | true => exact ⟨supermucAllgather, rfl, by simp [supermucAllgather]⟩
      | false => exact ⟨hostnamesAllgather _, rfl, by simp [hostnamesAllgather]⟩
    obtain ⟨c, hc, hci⟩ := hfirst i hi
    obtain ⟨c', hc', hcj⟩ := hfirst j hj
    obtain rfl := firstCall_eq_of_matched h hc hc'
    exact Bool.eq_iff_iff.mpr (hci.symm.trans hcj)
  · intro h σ hσ
    obtain ⟨calls, hissues, hagree⟩ := MpiJob.exists_agree S h
    exact matched_of_reachable hagree hissues hσ

/-- **A rank that returns has built its graph from the names and CPU sets of all ranks**,
if the collectives match: its modules have run on what the ranks have sent. -/
theorem MpiJob.runSources_of_reachable {S : StdSort VertexT} {job : MpiJob}
    (hsame : ∀ i j, job.Collects i → job.Collects j → followsConvention (job.env i).hostname =
      followsConvention (job.env j).hostname)
    {σ : State (mpiCollectives job.ranks) Abort fun i => Graph (job.nprocsOnline i)}
    (hσ : Reachable (job.program S) σ) {i : Fin job.ranks} {g : Graph (job.nprocsOnline i)}
    (hg : (σ i).phase = .running (.pure g)) :
    runSources S ((job.sources i).map (ModuleSource.gathered job.env i)) {} = .ok g := by
  obtain ⟨calls, hissues, hagree⟩ := MpiJob.exists_agree S hsame
  rw [← run_initProgram S job.mpiMaxProcessorName]
  exact run_of_reachable hagree hissues hσ hg

/-- A rank that gets to ModuleMPI issues all its collectives. -/
lemma MpiJob.program_issuesAll (S : StdSort VertexT) {job : MpiJob} {i : Fin job.ranks}
    (hinitialized : (job.env i).initialized = true) (hreaches : job.Reaches i .mpi) :
    (job.program S i).IssuesAll (job.calls i) := by
  obtain ⟨before, sm, between, mp, hsources, -, hbefore, -⟩ := job.exists_sources i
  have hcalls := MpiJob.flatMap_collectives i
  rw [if_pos hinitialized] at hcalls
  rw [MpiJob.Reaches, hbefore] at hreaches
  have hsources' : job.sources i = (before ++ .superMUC sm :: between) ++ [.mpi mp] := by
    rw [hsources, List.append_assoc, List.cons_append]
  rw [← hcalls, MpiJob.program, hsources']
  exact initProgram_issuesAll S _ _ hreaches mp _

/-- Two hosts, of which only the first is named by the convention. -/
def mixedNames : MpiJob where
  ranks := 2
  mpiMaxProcessorName := 256
  env := ![⟨true, "i01r01c01s01", 1⟩, ⟨true, "login01", 1⟩]
  nprocsOnline _ := 2
  modules _ := [⟨.superMUC smallSystem, true⟩, ⟨.mpi twoRanks, true⟩]
  sort _ := .insertion
  kinds_nodup _ := by simp [ModuleSource.kind]
  superMUC_enabled _ := ⟨smallSystem, by simp⟩
  mpi_enabled _ := ⟨twoRanks, by simp⟩

/-- The collective of SuperMUC is matched with one of ModuleMPI. -/
theorem not_matched_mixedNames :
    ¬ ∀ σ, Reachable (mixedNames.program .insertion) σ → Matched σ := by
  intro h
  have hfirst : (mixedNames.program .insertion (0 : Fin 2)).firstCall = some supermucAllgather :=
    rfl
  have hsecond : (mixedNames.program .insertion (1 : Fin 2)).firstCall =
      some (hostnamesAllgather 256) := rfl
  exact absurd (firstCall_eq_of_matched h hfirst hsecond) (by decide)

end Yloc
