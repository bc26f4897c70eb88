import Mathlib.Data.List.AList
import Yloc.GraphElement
import Yloc.Lib.Keyed

/-!
`graph.h`: the topology graph.

`Graph n` is the BGL adjacency list with vectors for vertices and out-edges: a
vertex descriptor is a position of `vertices`, and `edges` lists the edges in
the order in which they were added, so the out-edges of a vertex are those of
`edges` that start there, in that order. `mIdentifierMap` is the
`unordered_map` from identifiers to vertices. The member functions follow under
their names; `addVertexId` and `atId` are the overloads of `add_vertex` and
`operator[]` that take an identifier.
-/

namespace Yloc

/-- `vertex_t`: the position of a vertex. -/
abbrev VertexT := ℕ

/-- `Graph::identifier_t`. -/
abbrev Identifier := String

/-- `edge_type`. -/
inductive EdgeType where
  | parent
  | child
  | gpuInterconnect
  | edgeTypeMax
  deriving DecidableEq, Repr

/-- An edge of the graph with its `m_edgetype`. -/
abbrev Edge := Arc VertexT EdgeType

/-- `Graph`. -/
structure Graph (n : ℕ) where
  vertices : List (Vertex n) := []
  edges : List Edge := []
  mIdentifierMap : AList fun _ : Identifier => VertexT := ∅
  mRootVertex : VertexT := 0

/-- Why a run does not come back with a result. -/
inductive Abort where
  /-- A vertex is accessed that does not exist. -/
  | outOfRange
  /-- `.value()` is taken of an empty optional. -/
  | badOptionalAccess
  /-- A recursion does not end. -/
  | divergence
  deriving DecidableEq, Repr

namespace Graph

variable {n : ℕ}

/-- `boost::num_vertices`. -/
def numVertices (g : Graph n) : ℕ := g.vertices.length

/-- The vertex an identifier is bound to. -/
def lookup (g : Graph n) (id : Identifier) : Option VertexT := g.mIdentifierMap.lookup id

/-- `add_vertex()`. -/
def addVertex (g : Graph n) : VertexT × Graph n :=
  (g.vertices.length, { g with vertices := g.vertices ++ [{}] })

/-- `add_vertex(identifier_t)`. -/
def addVertexId (g : Graph n) (id : Identifier) : VertexT × Graph n :=
  match g.lookup id with
  | some vd => (vd, g)
  | none =>
      let (vd, g) := g.addVertex
      (vd, { g with mIdentifierMap := g.mIdentifierMap.insert id vd })

/-- `operator[](identifier_t)`: the vertex accessed. The `operator[]` of the
`unordered_map` binds an unbound identifier to a value-initialised vertex. -/
def atId (g : Graph n) (id : Identifier) : VertexT × Graph n :=
  match g.lookup id with
  | some vd => (vd, g)
  | none => (0, { g with mIdentifierMap := g.mIdentifierMap.insert id 0 })

/-- `g[vd]`, read. -/
def vertex (g : Graph n) (vd : VertexT) : Vertex n := (g.vertices[vd]?).getD {}

/-- `g[vd]`, changed by `f`. -/
def modify (g : Graph n) (vd : VertexT) (f : Vertex n → Vertex n) : Graph n :=
  { g with vertices := g.vertices.modify vd f }

/-- `boost::add_edge(u, v, Edge{type}, g)`. -/
def addEdge (g : Graph n) (u v : VertexT) (type : EdgeType) : Graph n :=
  { g with edges := g.edges ++ [⟨u, v, type⟩] }

/-- `boost::edge(u, v, g).second`. -/
def hasEdge (g : Graph n) (u v : VertexT) : Bool :=
  g.edges.any fun e => e.source == u && e.target == v

/-- `set_root_vertex`. -/
def setRootVertex (g : Graph n) (vd : VertexT) : Graph n := { g with mRootVertex := vd }

/-- The targets of the CHILD edges out of `vd`, in the order of the filtered view. -/
def childTargets (g : Graph n) (vd : VertexT) : List VertexT :=
  (g.edges.filter fun e => e.source == vd && e.label == .child).map Arc.target

/-- There is a CHILD edge from `u` to `v`. -/
abbrev Child (g : Graph n) (u v : VertexT) : Prop := Arc.Step .child g.edges u v

lemma mem_childTargets {g : Graph n} {u v : VertexT} : v ∈ g.childTargets u ↔ g.Child u v := by
  rw [childTargets, List.mem_map]
  constructor
  · rintro ⟨⟨u', v', l⟩, he, rfl⟩
    simp only [List.mem_filter, Bool.and_eq_true, beq_iff_eq] at he
    obtain ⟨he, rfl, rfl⟩ := he
    exact he
  · exact fun h => ⟨_, List.mem_filter.mpr ⟨h, by simp⟩, rfl⟩

lemma hasEdge_iff {g : Graph n} {u v : VertexT} :
    g.hasEdge u v = true ↔ ∃ e ∈ g.edges, e.source = u ∧ e.target = v := by
  simp [hasEdge]

/-! ### What the member functions leave alone -/

@[simp] lemma modify_edges (g : Graph n) (vd : VertexT) (f : Vertex n → Vertex n) :
    (g.modify vd f).edges = g.edges := rfl

@[simp] lemma modify_lookup (g : Graph n) (vd : VertexT) (f : Vertex n → Vertex n)
    (id : Identifier) : (g.modify vd f).lookup id = g.lookup id := rfl

@[simp] lemma modify_root (g : Graph n) (vd : VertexT) (f : Vertex n → Vertex n) :
    (g.modify vd f).mRootVertex = g.mRootVertex := rfl

@[simp] lemma modify_numVertices (g : Graph n) (vd : VertexT) (f : Vertex n → Vertex n) :
    (g.modify vd f).numVertices = g.numVertices := by
  simp [modify, numVertices]

@[simp] lemma addEdge_vertices (g : Graph n) (u v : VertexT) (t : EdgeType) :
    (g.addEdge u v t).vertices = g.vertices := rfl

@[simp] lemma addEdge_lookup (g : Graph n) (u v : VertexT) (t : EdgeType) (id : Identifier) :
    (g.addEdge u v t).lookup id = g.lookup id := rfl

@[simp] lemma addEdge_root (g : Graph n) (u v : VertexT) (t : EdgeType) :
    (g.addEdge u v t).mRootVertex = g.mRootVertex := rfl

@[simp] lemma addVertex_edges (g : Graph n) : g.addVertex.2.edges = g.edges := rfl

@[simp] lemma addVertex_lookup (g : Graph n) (id : Identifier) :
    g.addVertex.2.lookup id = g.lookup id := rfl

@[simp] lemma addVertex_root (g : Graph n) : g.addVertex.2.mRootVertex = g.mRootVertex := rfl

@[simp] lemma addVertex_numVertices (g : Graph n) :
    g.addVertex.2.numVertices = g.numVertices + 1 := by
  simp [addVertex, numVertices]

/-- `add_vertex(id)` of a bound identifier. -/
lemma addVertexId_of_some {g : Graph n} {id : Identifier} {vd : VertexT}
    (h : g.lookup id = some vd) : g.addVertexId id = (vd, g) := by
  rw [addVertexId, h]

/-- `add_vertex(id)` of an unbound identifier. -/
lemma addVertexId_of_none {g : Graph n} {id : Identifier} (h : g.lookup id = none) :
    g.addVertexId id = (g.numVertices,
      { g.addVertex.2 with mIdentifierMap := g.mIdentifierMap.insert id g.numVertices }) := by
  rw [addVertexId, h]
  rfl

@[simp] lemma addVertexId_edges (g : Graph n) (id : Identifier) :
    (g.addVertexId id).2.edges = g.edges := by
  cases h : g.lookup id with
  | some vd => rw [addVertexId_of_some h]
  | none => rw [addVertexId_of_none h]; rfl

@[simp] lemma addVertexId_root (g : Graph n) (id : Identifier) :
    (g.addVertexId id).2.mRootVertex = g.mRootVertex := by
  cases h : g.lookup id with
  | some vd => rw [addVertexId_of_some h]
  | none => rw [addVertexId_of_none h]; rfl

/-- Afterwards the identifier is bound to the vertex returned. -/
lemma addVertexId_lookup_self (g : Graph n) (id : Identifier) :
    (g.addVertexId id).2.lookup id = some (g.addVertexId id).1 := by
  cases h : g.lookup id with
  | some vd => rw [addVertexId_of_some h, h]
  | none => rw [addVertexId_of_none h]; exact AList.lookup_insert _

/-- Other identifiers keep what they were bound to. -/
lemma addVertexId_lookup_of_ne {g : Graph n} {id id' : Identifier} (hne : id' ≠ id) :
    (g.addVertexId id).2.lookup id' = g.lookup id' := by
  cases h : g.lookup id with
  | some vd => rw [addVertexId_of_some h]
  | none => rw [addVertexId_of_none h]; exact AList.lookup_insert_ne hne

end Graph

end Yloc
