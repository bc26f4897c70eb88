import Yloc.Status
import Yloc.Topology

/-!
`modules/supermuc`: the islands, racks, columns and slots of the system.

The module reads the position of every host from its name, of which it cuts off
the end: what is left of 9, 6 and 3 characters names the column, the rack and
the island. A `Char` of a host name stands for one `char` of the C string, so that
`String.length` is what `strlen` counts.

* `sscanfFields`, `SupermucSource.check`: the test of the host name.
* `makeSupermucGraph`, `SupermucSource.initGraph`: the functions of
  `init_graph.cc`.
* `supermucOps`: what the module does to the topology, connected to the code by
  `makeSupermucGraph_advance`.
-/

namespace Yloc

variable {n : ℕ}

/-- The C string left after `s[k] = '\0'`, its first `k` bytes. -/
def cut (s : String) (k : ℕ) : String := String.ofList (s.toList.take k)

/-- What `%2[0-9]` leaves of its input: one or two digits are read. -/
def scanDigits : List Char → Option (List Char)
  | [] => none
  | c :: rest =>
      if c.isDigit then
        match rest with
        | [] => some []
        | d :: rest' => if d.isDigit then some rest' else some rest
      else none

/-- The number of fields that `sscanf` reads, each a letter followed by `%2[0-9]`.
(It is `EOF` in place of 0 where the input ends before the first field.) -/
def sscanfFields : List Char → List Char → ℕ
  | [], _ => 0
  | _ :: _, [] => 0
  | letter :: letters, c :: input =>
      if c = letter then
        match scanDigits input with
        | some rest => sscanfFields letters rest + 1
        | none => 0
      else 0

/-- The naming convention: twelve `char`s, and all fields of
`"i%2[0-9]r%2[0-9]c%2[0-9]s%2[0-9]"` are there. -/
def followsConvention (hostname : String) : Bool :=
  hostname.length == 12 && sscanfFields ['i', 'r', 'c', 's'] hostname.toList == 4

/-- `SuperMUCAdapter`. -/
def supermucAdapter (n : ℕ) (name : String) : Adapter n where
  toString := name
  mObj := .supermucName name

/-- What a name does to the vertex of a component of type `t`. -/
def contributeSupermuc (t : Component) (name : String) (v : Vertex n) : Vertex n :=
  ((v.setType t).describe name).addAdapter (supermucAdapter n name)

/-- `make_supermuc_node`. -/
def makeSupermucNode (g : Graph n) (name : String) : VertexT × Graph n :=
  let (vd, g) := g.addVertexId (systemId name)
  (vd, g.modify vd (contributeSupermuc .misc name))

/-- The test that comes before each pair of edges in `make_supermuc_graph`,
with the edges. -/
def addEdgesIfNew (g : Graph n) (u v : VertexT) : Graph n :=
  if !g.hasEdge u v then (g.addEdge u v .child).addEdge v u .parent else g

/-- One round of the loop of `make_supermuc_graph`. -/
def makeSupermucHost (g : Graph n) (hostname : String) : Graph n :=
  let (slotVd, g) := g.addVertexId (machineId hostname)
  let g := g.modify slotVd (contributeSupermuc .node hostname)
  let (columnVd, g) := makeSupermucNode g (cut hostname 9)
  let (rackVd, g) := makeSupermucNode g (cut hostname 6)
  let (islandVd, g) := makeSupermucNode g (cut hostname 3)
  let g := addEdgesIfNew g islandVd rackVd
  let g := addEdgesIfNew g rackVd columnVd
  addEdgesIfNew g columnVd slotVd

/-- `make_supermuc_graph`, after the `MPI_Allgather` of the host names. -/
def makeSupermucGraph (g : Graph n) (hostnames : List String) : Graph n :=
  hostnames.foldl makeSupermucHost g

/-- What one initialisation of the module reads. The names are C strings, with a `Char` for
each byte. -/
structure SupermucSource where
  /-- `MPI_Initialized` -/
  initialized : Bool
  /-- `MPI_Get_processor_name` -/
  hostname : String
  /-- What `MPI_Allgather` gathers, by rank. -/
  hostnames : List String

namespace SupermucSource

/-- The module goes on to the graph. -/
def check (source : SupermucSource) : Bool :=
  source.initialized && followsConvention source.hostname

/-- `ModuleSuperMUC::init_graph`. -/
def initGraph (source : SupermucSource) (g : Graph n) : YlocStatus × Graph n :=
  if !source.initialized then (.initError, g)
  else if source.hostname.length ≠ 12 then (.initError, g)
  else if sscanfFields ['i', 'r', 'c', 's'] source.hostname.toList ≠ 4 then (.initError, g)
  else (.success, makeSupermucGraph g source.hostnames)

/-- The three tests in one. -/
lemma initGraph_eq (source : SupermucSource) (g : Graph n) :
    source.initGraph g =
      if source.check then (.success, makeSupermucGraph g source.hostnames)
      else (.initError, g) := by
  rw [initGraph, check, followsConvention]
  split_ifs <;> simp_all

end SupermucSource

/-! ### What the module does to the topology -/

/-- The operations for one host. -/
def supermucHostOps (hostname : String) : List (TopologyOp n) :=
  [.put (machineKey hostname) (contributeSupermuc .node hostname),
   .put (systemKey (cut hostname 9)) (contributeSupermuc .misc (cut hostname 9)),
   .put (systemKey (cut hostname 6)) (contributeSupermuc .misc (cut hostname 6)),
   .put (systemKey (cut hostname 3)) (contributeSupermuc .misc (cut hostname 3)),
   .childIfNew (systemKey (cut hostname 3)) (systemKey (cut hostname 6)),
   .childIfNew (systemKey (cut hostname 6)) (systemKey (cut hostname 9)),
   .childIfNew (systemKey (cut hostname 9)) (machineKey hostname)]

/-- The operations of `make_supermuc_graph`. -/
def supermucOps (hostnames : List String) : List (TopologyOp n) :=
  hostnames.flatMap supermucHostOps

section

variable {φ : Key → Option VertexT} {g : Graph n} {T : Topology n}

/-- `make_supermuc_node`. -/
lemma Represents.makeSupermucNode (h : Represents φ g T) (name : String) :
    ∃ φ' vd g', Yloc.makeSupermucNode g name = (vd, g') ∧ φ' (systemKey name) = some vd ∧
      Advance φ g φ' g'
        ((TopologyOp.put (systemKey name) (contributeSupermuc .misc name)).act T) := by
  obtain ⟨φ', vd, g', hvertex, hvd, hadv⟩ := h.addVertexId (systemId name)
  refine ⟨φ', vd, _, ?_, hvd, hadv.rep.modify hvd _, hadv.keeps, hadv.root⟩
  rw [Yloc.makeSupermucNode, hvertex]

/-- The guarded pair of edges. -/
lemma Represents.addEdgesIfNew (h : Represents φ g T) {a b : Key} {u v : VertexT}
    (hu : φ a = some u) (hv : φ b = some v) :
    Advance φ g φ (Yloc.addEdgesIfNew g u v) ((TopologyOp.childIfNew a b).act T) := by
  rw [Yloc.addEdgesIfNew, h.hasEdge_eq hu hv, TopologyOp.act]
  cases T.hasArc a b with
  | true => exact .refl h
  | false => exact h.child hu hv

/-- One round of the loop makes the changes for one host, first on its machine. -/
lemma makeSupermucHost_advance (h : Represents φ g T) (hostname : String) :
    ∃ φ', Advance φ g φ' (makeSupermucHost g hostname) (T.run (supermucHostOps hostname)) ∧
      φ' (machineKey hostname) = some (g.addVertexId (machineId hostname)).1 := by
  obtain ⟨φ₁, slotVd, g₁, hslot, hslotVd, hadv₁⟩ := h.addVertexId (machineId hostname)
  have hrep := hadv₁.rep.modify hslotVd (contributeSupermuc .node hostname)
  obtain ⟨φ₂, columnVd, g₂, hcolumn, hcolumnVd, hadv₂⟩ := hrep.makeSupermucNode (cut hostname 9)
  obtain ⟨φ₃, rackVd, g₃, hrack, hrackVd, hadv₃⟩ := hadv₂.rep.makeSupermucNode (cut hostname 6)
  obtain ⟨φ₄, islandVd, g₄, hisland, hislandVd, hadv₄⟩ :=
    hadv₃.rep.makeSupermucNode (cut hostname 3)
  have hrackVd := hadv₄.keeps _ _ hrackVd
  have hcolumnVd := hadv₄.keeps _ _ (hadv₃.keeps _ _ hcolumnVd)
  have hslotVd := hadv₄.keeps _ _ (hadv₃.keeps _ _ (hadv₂.keeps _ _ hslotVd))
  have hadv₅ := hadv₄.rep.addEdgesIfNew hislandVd hrackVd
  have hadv₆ := hadv₅.rep.addEdgesIfNew hrackVd hcolumnVd
  have hadv₇ := hadv₆.rep.addEdgesIfNew hcolumnVd hslotVd
  refine ⟨φ₄, ?_⟩
  rw [makeSupermucHost, hslot]
  simp only [hcolumn, hrack, hisland]
  exact ⟨⟨hadv₇.rep, hadv₁.keeps.trans (hadv₂.keeps.trans (hadv₃.keeps.trans hadv₄.keeps)),
    (hadv₇.root.trans (hadv₆.root.trans hadv₅.root)).trans
      (hadv₄.root.trans (hadv₃.root.trans (hadv₂.root.trans hadv₁.root)))⟩, hslotVd⟩

/-- **`make_supermuc_graph` makes the changes of `supermucOps`.** -/
theorem makeSupermucGraph_advance (h : Represents φ g T) (hostnames : List String) :
    ∃ φ', Advance φ g φ' (makeSupermucGraph g hostnames) (T.run (supermucOps hostnames)) ∧
      ∀ hostname ∈ hostnames.head?,
        φ' (machineKey hostname) = some (g.addVertexId (machineId hostname)).1 := by
  induction hostnames generalizing φ g T with
  | nil => exact ⟨φ, .refl h, by simp⟩
  | cons hostname hostnames ih =>
      obtain ⟨φ₁, hadv₁, hfirst⟩ := makeSupermucHost_advance h hostname
      obtain ⟨φ₂, hadv₂, -⟩ := ih hadv₁.rep
      refine ⟨φ₂, ?_, ?_⟩
      · rw [supermucOps, List.flatMap_cons, Topology.run, runOps_append]
        exact hadv₁.trans hadv₂
      · intro hostname' hmem
        rw [List.head?_cons, Option.mem_some_iff] at hmem
        subst hmem
        exact hadv₂.keeps _ _ hfirst

end

end Yloc
