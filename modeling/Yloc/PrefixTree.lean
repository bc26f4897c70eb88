import Yloc.HostNames
import Yloc.Shape

/-!
The hierarchy of SuperMUC is the tree of the prefixes of the host names.

`Node` and `Link` are that tree in its own terms: the islands, racks, columns and
slots are the prefixes of 3, 6 and 9 characters and the names themselves, and a link
leads to a prefix that is three characters longer. `PrefixTree` says that the graph has
one vertex for each node and one pair of edges for each link, and
`makeSupermucGraph_prefixTree` that this is what `make_supermuc_graph` leaves, for names
in any order and any number of times; two such runs leave the same graph up to the
numbers of the vertices and repetitions of adapters (`Graph.SameUpToRepetition`).

* `mem_supermucLinks`: the links, as the operations of the module have them.
* `contributeSupermuc_iterate`: what a name leaves that is met several times.
* `supermuc_equiv`: the topologies of two runs.
-/

namespace Yloc

variable {n : ℕ}

/-! ### The tree of prefixes -/

/-- The islands, racks, columns and slots of the hosts. -/
def Node (hostnames : List String) (p : String) : Prop :=
  ∃ hostname ∈ hostnames, p ∈ [cut hostname 3, cut hostname 6, cut hostname 9, hostname]

/-- The node `q` comes directly below the node `p`. -/
def Link (hostnames : List String) (p q : String) : Prop :=
  Node hostnames p ∧ Node hostnames q ∧ p.toList <+: q.toList ∧ q.length = p.length + 3

/-- The identifier of a node. -/
def nodeId (p : String) : Identifier := if p.length = 12 then machineId p else systemId p

/-- The graph `g'` is the graph `g` with the tree of the prefixes of the host names. -/
structure PrefixTree (hostnames : List String) (g g' : Graph n) : Prop where
  /-- Identifiers name existing and pairwise different vertices. -/
  wellFormed : g'.WellFormed
  /-- What was bound stays bound. -/
  keeps : ∀ id v, g.lookup id = some v → g'.lookup id = some v
  /-- Every node has a vertex. -/
  node : ∀ p, Node hostnames p → ∃ v, g'.lookup (nodeId p) = some v
  /-- Only nodes are bound in addition. -/
  bound : ∀ id v, g'.lookup id = some v →
    g.lookup id = some v ∨ ∃ p, Node hostnames p ∧ id = nodeId p
  /-- Every new vertex is that of a node. -/
  vertex : ∀ v, g.numVertices ≤ v → v < g'.numVertices →
    ∃ p, Node hostnames p ∧ g'.lookup (nodeId p) = some v
  /-- The new edges are a CHILD and a PARENT edge for each link, once. -/
  edges : ∃ new, g'.edges = g.edges ++ new ∧ new.Nodup ∧ ∀ e, e ∈ new ↔
    ∃ p q u v, Link hostnames p q ∧ g'.lookup (nodeId p) = some u ∧
      g'.lookup (nodeId q) = some v ∧ (e = ⟨u, v, .child⟩ ∨ e = ⟨v, u, .parent⟩)

/-- The adapters are the same apart from repetitions of the last one. -/
def SameAdapters (as bs : List (Adapter n)) : Prop :=
  as = bs ∨ ∃ cs a i j, as = cs ++ List.replicate (i + 1) a ∧ bs = cs ++ List.replicate (j + 1) a

/-- The graphs `g` and `g'` are the same with the vertex `v` of `g` at `f v`, apart from
repetitions of adapters. -/
structure Graph.SameUpToRepetition (f : VertexT → VertexT) (g g' : Graph n) : Prop where
  bijOn : Set.BijOn f (Set.Iio g.numVertices) (Set.Iio g'.numVertices)
  lookup : ∀ id, g'.lookup id = (g.lookup id).map f
  edges : (g.edges.map (Arc.map f)).Perm g'.edges
  root : g'.mRootVertex = g.mRootVertex
  type : ∀ v < g.numVertices, (g.vertex v).mType = (g'.vertex (f v)).mType
  description : ∀ v < g.numVertices, (g.vertex v).mDescription = (g'.vertex (f v)).mDescription
  adapters : ∀ v < g.numVertices, SameAdapters (g.vertex v).mAdapters (g'.vertex (f v)).mAdapters

/-! ### Nodes and links as keys -/

section

variable {hostnames : List String} (hlength : ∀ hostname ∈ hostnames, hostname.length = 12)

/-- The key of a node. -/
abbrev nodeKey (p : String) : Key := .name (nodeId p)

lemma nodeKey_of_length {p : String} (h : p.length ≠ 12) : nodeKey p = systemKey p := by
  rw [nodeKey, nodeId, if_neg h]

lemma nodeKey_of_twelve {p : String} (h : p.length = 12) : nodeKey p = machineKey p := by
  rw [nodeKey, nodeId, if_pos h]

lemma nodeId_inj {p q : String} (h : nodeId p = nodeId q) : p = q := by
  rw [nodeId, nodeId] at h
  split at h <;> split at h
  · exact machineId_inj.mp h
  · exact absurd h (machineId_ne_systemId p q)
  · exact absurd h.symm (machineId_ne_systemId q p)
  · exact systemId_inj.mp h

/-- A prefix is what is left of the longer string. -/
lemma eq_cut_of_prefix {p q : String} (h : p.toList <+: q.toList) : p = cut q p.length := by
  rw [cut, ← String.length_toList, ← List.prefix_iff_eq_take.mp h, String.ofList_toList]

lemma cut_prefix (s : String) (k : ℕ) : (cut s k).toList <+: s.toList := by
  rw [cut, String.toList_ofList]
  exact List.take_prefix k _

include hlength

lemma length_cut {hostname : String} {k : ℕ} (hmem : hostname ∈ hostnames) (hk : k ≤ 12) :
    (cut hostname k).length = k := by
  rw [cut_length, hlength hostname hmem, min_eq_left hk]

lemma nodeKey_cut {hostname : String} {k : ℕ} (hmem : hostname ∈ hostnames) (hk : k < 12) :
    nodeKey (cut hostname k) = systemKey (cut hostname k) := by
  refine nodeKey_of_length ?_
  rw [length_cut hlength hmem hk.le]
  exact hk.ne

/-- Nodes stand for islands, racks, columns and hosts. -/
lemma Node.length_cases {p : String} (hp : Node hostnames p) :
    p.length = 3 ∨ p.length = 6 ∨ p.length = 9 ∨ p.length = 12 := by
  obtain ⟨hostname, hmem, hnode⟩ := hp
  simp only [List.mem_cons, List.not_mem_nil, or_false] at hnode
  rcases hnode with rfl | rfl | rfl | rfl
  · exact .inl (length_cut hlength hmem (by omega))
  · exact .inr (.inl (length_cut hlength hmem (by omega)))
  · exact .inr (.inr (.inl (length_cut hlength hmem (by omega))))
  · exact .inr (.inr (.inr (hlength _ hmem)))

/-- The module adds the edges of a link with the host name that its lower end is cut from. -/
lemma Link.exists_arc {p q : String} (hlink : Link hostnames p q) :
    ∃ hostname ∈ hostnames, SupermucArc hostname (nodeKey p) (nodeKey q) := by
  obtain ⟨hp, ⟨hostname, hmem, hqnode⟩, hprefix, hlen⟩ := hlink
  have hp_length := hp.length_cases hlength
  have hp_cut := eq_cut_of_prefix hprefix
  refine ⟨hostname, hmem, ?_⟩
  simp only [List.mem_cons, List.not_mem_nil, or_false] at hqnode
  rcases hqnode with rfl | rfl | rfl | rfl
  · have hthree := length_cut hlength hmem (show 3 ≤ 12 by omega)
    omega
  · have hsix := length_cut hlength hmem (show 6 ≤ 12 by omega)
    rw [show p.length = 3 by omega, cut_cut _ (by omega)] at hp_cut
    rw [hp_cut, nodeKey_cut hlength hmem (by omega), nodeKey_cut hlength hmem (by omega)]
    exact .islandRack
  · have hnine := length_cut hlength hmem (show 9 ≤ 12 by omega)
    rw [show p.length = 6 by omega, cut_cut _ (by omega)] at hp_cut
    rw [hp_cut, nodeKey_cut hlength hmem (by omega), nodeKey_cut hlength hmem (by omega)]
    exact .rackColumn
  · have htwelve := hlength _ hmem
    rw [show p.length = 9 by omega] at hp_cut
    rw [hp_cut, nodeKey_cut hlength hmem (by omega), nodeKey_of_twelve htwelve]
    exact .columnSlot

/-- Two cuts of one host name are linked when they are three characters apart. -/
lemma link_cut {hostname : String} (hmem : hostname ∈ hostnames) {j k : ℕ}
    (hj : Node hostnames (cut hostname j)) (hk : Node hostnames (cut hostname k))
    (hjk : j + 3 = k) (hk' : k ≤ 12) : Link hostnames (cut hostname j) (cut hostname k) := by
  refine ⟨hj, hk, ?_, ?_⟩
  · rw [← cut_cut hostname (show j ≤ k by omega)]
    exact cut_prefix _ _
  · rw [length_cut hlength hmem hk', length_cut hlength hmem (by omega), hjk]

/-- The links are the pairs between which the module adds edges. -/
lemma link_iff {a b : Key} :
    (∃ p q, Link hostnames p q ∧ a = nodeKey p ∧ b = nodeKey q) ↔
      ∃ hostname ∈ hostnames, SupermucArc hostname a b := by
  constructor
  · rintro ⟨p, q, hlink, rfl, rfl⟩
    exact hlink.exists_arc hlength
  · rintro ⟨hostname, hmem, harc⟩
    have hnode : ∀ p ∈ [cut hostname 3, cut hostname 6, cut hostname 9, hostname],
        Node hostnames p := fun p hp => ⟨hostname, hmem, hp⟩
    cases harc with
    | islandRack =>
        exact ⟨_, _, link_cut hlength hmem (hnode _ (by simp)) (hnode _ (by simp)) rfl (by omega),
          (nodeKey_cut hlength hmem (by omega)).symm, (nodeKey_cut hlength hmem (by omega)).symm⟩
    | rackColumn =>
        exact ⟨_, _, link_cut hlength hmem (hnode _ (by simp)) (hnode _ (by simp)) rfl (by omega),
          (nodeKey_cut hlength hmem (by omega)).symm, (nodeKey_cut hlength hmem (by omega)).symm⟩
    | columnSlot =>
        refine ⟨cut hostname 9, hostname, ⟨hnode _ (by simp), hnode _ (by simp),
          cut_prefix _ _, ?_⟩, (nodeKey_cut hlength hmem (by omega)).symm,
          (nodeKey_of_twelve (hlength _ hmem)).symm⟩
        rw [length_cut hlength hmem (by omega), hlength _ hmem]

/-- The module puts something on the keys of the nodes. -/
lemma mem_supermucOps_putKey {k : Key} :
    k ∈ (supermucOps hostnames : List (TopologyOp n)).filterMap TopologyOp.putKey ↔
      ∃ p, Node hostnames p ∧ k = nodeKey p := by
  have hhost : ∀ hostname ∈ hostnames,
      ((supermucHostOps hostname : List (TopologyOp n)).filterMap TopologyOp.putKey) =
        [hostname, cut hostname 9, cut hostname 6, cut hostname 3].map nodeKey := by
    intro hostname hmem
    simp only [List.map_cons, List.map_nil, nodeKey_of_twelve (hlength hostname hmem),
      nodeKey_cut hlength hmem (show 9 < 12 by omega),
      nodeKey_cut hlength hmem (show 6 < 12 by omega),
      nodeKey_cut hlength hmem (show 3 < 12 by omega)]
    rfl
  rw [supermucOps, List.filterMap_flatMap, List.mem_flatMap]
  constructor
  · rintro ⟨hostname, hmem, hk⟩
    rw [hhost hostname hmem, List.mem_map] at hk
    obtain ⟨p, hp, rfl⟩ := hk
    refine ⟨p, ⟨hostname, hmem, ?_⟩, rfl⟩
    simp only [List.mem_cons, List.not_mem_nil, or_false] at hp ⊢
    tauto
  · rintro ⟨p, ⟨hostname, hmem, hp⟩, rfl⟩
    refine ⟨hostname, hmem, ?_⟩
    rw [hhost hostname hmem, List.mem_map]
    refine ⟨p, ?_, rfl⟩
    simp only [List.mem_cons, List.not_mem_nil, or_false] at hp ⊢
    tauto

/-- What the module puts on the key of a node. -/
lemma supermucOps_put {p : String} {f : Vertex n → Vertex n}
    (h : .put (nodeKey p) f ∈ supermucOps hostnames) :
    f = contributeSupermuc (if p.length = 12 then .node else .misc) p := by
  obtain ⟨hostname, hmem, hput⟩ := List.mem_flatMap.mp h
  have htwelve := hlength hostname hmem
  have hsystem : ∀ k < 12, nodeKey p = systemKey (cut hostname k) → p = cut hostname k ∧
      p.length ≠ 12 := by
    intro k hk hkey
    have hcut : (cut hostname k).length ≠ 12 := by
      rw [cut_length, htwelve]
      omega
    rw [← nodeKey_of_length hcut] at hkey
    obtain rfl := nodeId_inj (Key.name.inj hkey)
    exact ⟨rfl, hcut⟩
  simp only [supermucHostOps, List.mem_cons, TopologyOp.put.injEq, reduceCtorEq, List.not_mem_nil,
    or_false] at hput
  rcases hput with ⟨hkey, rfl⟩ | ⟨hkey, rfl⟩ | ⟨hkey, rfl⟩ | ⟨hkey, rfl⟩
  · rw [← nodeKey_of_twelve htwelve] at hkey
    rw [nodeId_inj (Key.name.inj hkey), if_pos htwelve]
  all_goals
    obtain ⟨rfl, hne⟩ := hsystem _ (by omega) hkey
    rw [if_neg hne]

omit hlength

/-- The pairs between which the module adds edges. -/
lemma mem_supermucLinks {a b : Key} :
    (a, b) ∈ (supermucOps hostnames : List (TopologyOp n)).filterMap TopologyOp.childIfNewArc ↔
      ∃ hostname ∈ hostnames, SupermucArc hostname a b := by
  rw [supermucOps, List.filterMap_flatMap, List.mem_flatMap]
  refine exists_congr fun hostname => and_congr_right fun _ => ?_
  have hlinks : (supermucHostOps hostname : List (TopologyOp n)).filterMap
      TopologyOp.childIfNewArc =
      [(systemKey (cut hostname 3), systemKey (cut hostname 6)),
        (systemKey (cut hostname 6), systemKey (cut hostname 9)),
        (systemKey (cut hostname 9), machineKey hostname)] := rfl
  rw [hlinks]
  simp only [List.mem_cons, Prod.mk.injEq, List.not_mem_nil, or_false]
  constructor
  · rintro (⟨rfl, rfl⟩ | ⟨rfl, rfl⟩ | ⟨rfl, rfl⟩)
    · exact .islandRack
    · exact .rackColumn
    · exact .columnSlot
  · rintro (_ | _ | _)
    · exact .inl ⟨rfl, rfl⟩
    · exact .inr (.inl ⟨rfl, rfl⟩)
    · exact .inr (.inr ⟨rfl, rfl⟩)

end

/-! ### The topologies of runs -/

/-- A name that is met several times adds its adapter as often. -/
lemma contributeSupermuc_iterate (t : Component) (name : String) (i : ℕ) (v : Vertex n) :
    (contributeSupermuc t name)^[i + 1] v =
      ⟨v.mAdapters ++ List.replicate (i + 1) (supermucAdapter n name), name, t⟩ := by
  induction i generalizing v with
  | zero => rfl
  | succ i ih =>
      rw [Function.iterate_succ_apply, ih]
      simp [contributeSupermuc, List.replicate_succ]

section

variable {φ : Key → Option VertexT} {g : Graph n} {T : Topology n} {hostnames : List String}
  (h : Represents φ g T) (hsystem : ∀ name, g.lookup (systemId name) = none)
  (hlength : ∀ hostname ∈ hostnames, hostname.length = 12)

include h hsystem hlength

/-- The edges of the module. -/
lemma supermuc_arcs : ∃ links, links.Nodup ∧
    (∀ a b, (a, b) ∈ links ↔ ∃ hostname ∈ hostnames, SupermucArc hostname a b) ∧
    (T.run (supermucOps hostnames)).arcs = T.arcs ++ childPairs links := by
  have hops : ∀ op ∈ (supermucOps hostnames : List (TopologyOp n)),
      (∃ k f, op = .put k f) ∨ ∃ a b, op = .childIfNew a b := by
    intro op hop
    rcases mem_supermucOps hop with ⟨_, rfl⟩ | ⟨_, rfl⟩ | ⟨_, _, rfl⟩
    · exact .inl ⟨_, _, rfl⟩
    · exact .inl ⟨_, _, rfl⟩
    · exact .inr ⟨_, _, rfl⟩
  -- no edge of `T` begins at a component of the system
  have hnew : ∀ a b, (a, b) ∈ (supermucOps hostnames : List (TopologyOp n)).filterMap
      TopologyOp.childIfNewArc → T.hasArc a b = false := by
    intro a b hab
    obtain ⟨hostname, -, harc⟩ := mem_supermucLinks.mp hab
    obtain ⟨name, rfl⟩ := harc.source_system
    rw [← Bool.not_eq_true, Topology.hasArc_iff]
    rintro ⟨e, he, hsource, -⟩
    obtain ⟨⟨u, hu⟩, -⟩ := h.ends e he
    rw [hsource, ← h.ids, hsystem] at hu
    cases hu
  have hback : ∀ a b, (a, b) ∈ (supermucOps hostnames : List (TopologyOp n)).filterMap
      TopologyOp.childIfNewArc → (b, a) ∉ (supermucOps hostnames : List (TopologyOp n)).filterMap
        TopologyOp.childIfNewArc := by
    intro a b hab hba
    obtain ⟨hostname, hmem, harc⟩ := mem_supermucLinks.mp hab
    obtain ⟨hostname', hmem', harc'⟩ := mem_supermucLinks.mp hba
    exact lt_asymm (harc.keyLength_lt (hlength _ hmem)) (harc'.keyLength_lt (hlength _ hmem'))
  obtain ⟨links, hnodup, hmem, harcs⟩ := Topology.run_arcs_of_childIfNew hops hnew hback
  exact ⟨links, hnodup, fun a b => (hmem _).trans mem_supermucLinks, harcs⟩

omit h hsystem

/-- The vertex of a node. -/
lemma supermuc_info {p : String} (hp : Node hostnames p) :
    ∃ i, (T.run (supermucOps hostnames)).info (nodeKey p) =
      some ⟨((T.info (nodeKey p)).getD {}).mAdapters ++
          List.replicate (i + 1) (supermucAdapter n p), p,
        if p.length = 12 then .node else .misc⟩ := by
  have hmem := (mem_supermucOps_putKey (n := n) hlength).mpr ⟨p, hp, rfl⟩
  obtain ⟨i, hi⟩ := Nat.exists_eq_succ_of_ne_zero
    (Nat.pos_iff_ne_zero.mp (List.count_pos_iff.mpr hmem))
  refine ⟨i, ?_⟩
  rw [Topology.run_info_iterate (fun f hf => supermucOps_put hlength hf) hmem, hi,
    contributeSupermuc_iterate]

/-- Other vertices stay. -/
lemma supermuc_info_of_not_node {k : Key} (hk : ∀ p, Node hostnames p → k ≠ nodeKey p) :
    (T.run (supermucOps hostnames)).info k = T.info k := by
  refine Topology.run_info_of_not_mem fun hmem => ?_
  obtain ⟨p, hp, rfl⟩ := (mem_supermucOps_putKey hlength).mp hmem
  exact hk p hp rfl

/-- The same vertex, apart from repetitions of adapters. -/
def RepeatedVertex (v w : Vertex n) : Prop :=
  v.mType = w.mType ∧ v.mDescription = w.mDescription ∧ SameAdapters v.mAdapters w.mAdapters

include h hsystem

/-- **Runs over the same names have equivalent topologies**, whatever the order of the
names and however often they come. -/
theorem supermuc_equiv {hostnames' : List String}
    (hsame : ∀ hostname, hostname ∈ hostnames' ↔ hostname ∈ hostnames) :
    Keyed.Equiv RepeatedVertex (T.run (supermucOps hostnames))
      (T.run (supermucOps hostnames')) := by
  have hlength' : ∀ hostname ∈ hostnames', hostname.length = 12 := fun hostname hmem =>
    hlength hostname ((hsame hostname).mp hmem)
  have hnode : ∀ p, Node hostnames' p ↔ Node hostnames p := fun p =>
    exists_congr fun hostname => and_congr_left fun _ => hsame hostname
  constructor
  · intro k
    by_cases hk : ∃ p, Node hostnames p ∧ k = nodeKey p
    · obtain ⟨p, hp, rfl⟩ := hk
      obtain ⟨i, hi⟩ := supermuc_info (T := T) hlength hp
      obtain ⟨j, hj⟩ := supermuc_info (T := T) hlength' ((hnode p).mpr hp)
      rw [hi, hj]
      exact .some ⟨rfl, rfl, .inr ⟨_, _, i, j, rfl, rfl⟩⟩
    · push Not at hk
      rw [supermuc_info_of_not_node hlength hk,
        supermuc_info_of_not_node hlength' fun p hp => hk p ((hnode p).mp hp)]
      cases T.info k with
      | none => exact .none
      | some v => exact .some ⟨rfl, rfl, .inl rfl⟩
  · obtain ⟨links, hnodup, hmem, harcs⟩ := supermuc_arcs h hsystem hlength
    obtain ⟨links', hnodup', hmem', harcs'⟩ := supermuc_arcs h hsystem hlength'
    have hperm : links.Perm links' := by
      refine (List.perm_ext_iff_of_nodup hnodup hnodup').mpr fun ⟨a, b⟩ => ?_
      rw [hmem, hmem']
      exact exists_congr fun hostname => and_congr_left fun _ => (hsame hostname).symm
    rw [harcs, harcs']
    exact (hperm.flatMap_right _).append_left _

omit h hsystem

/-- After the module there are the nodes and what was there before. -/
lemma supermuc_info_isSome {k : Key} : ((T.run (supermucOps hostnames)).info k).isSome ↔
    (T.info k).isSome ∨ ∃ p, Node hostnames p ∧ k = nodeKey p := by
  rw [Topology.run_info_isSome, mem_supermucOps_putKey hlength]

/-- The vertex of a node. -/
lemma place_nodeKey {φ' : Key → Option VertexT} {g' : Graph n}
    (h' : Represents φ' g' (T.run (supermucOps hostnames))) {p : String} (hp : Node hostnames p) :
    φ' (nodeKey p) = some (place φ' (nodeKey p)) := by
  obtain ⟨v, hv⟩ := h'.exists_place ((supermuc_info_isSome hlength).mpr (.inr ⟨p, hp, rfl⟩))
  rw [hv, place_eq hv]

include h in
/-- What has a vertex had one before, or it is a node. -/
lemma node_of_placed {φ' : Key → Option VertexT} {g' : Graph n}
    (hadv : Advance φ g φ' g' (T.run (supermucOps hostnames))) {k : Key} {v : VertexT}
    (hk : φ' k = some v) : φ k = some v ∨ ∃ p, Node hostnames p ∧ k = nodeKey p := by
  obtain ⟨x, -, hx⟩ := hadv.rep.info_some hk
  rcases (supermuc_info_isSome hlength).mp (Option.isSome_iff_exists.mpr ⟨x, hx⟩) with
    hold | hnode
  · left
    obtain ⟨w, hw⟩ := h.exists_place hold
    rw [hw, ← hk, hadv.keeps k w hw]
  · exact .inr hnode

include h hsystem

/-- The new edges of the graph. -/
lemma supermuc_edges {φ' : Key → Option VertexT} {g' : Graph n}
    (hadv : Advance φ g φ' g' (T.run (supermucOps hostnames))) :
    ∃ new, g'.edges = g.edges ++ new ∧ new.Nodup ∧ ∀ e, e ∈ new ↔
      ∃ p q u v, Link hostnames p q ∧ g'.lookup (nodeId p) = some u ∧
        g'.lookup (nodeId q) = some v ∧ (e = ⟨u, v, .child⟩ ∨ e = ⟨v, u, .parent⟩) := by
  have h' := hadv.rep
  have hplaced : ∀ {p}, Node hostnames p → φ' (nodeKey p) = some (place φ' (nodeKey p)) :=
    fun hp => place_nodeKey hlength h' hp
  obtain ⟨links, hnodup, hmem, harcs⟩ := supermuc_arcs h hsystem hlength
  have hlinks : ∀ a b, (a, b) ∈ links ↔
      ∃ p q, Link hostnames p q ∧ a = nodeKey p ∧ b = nodeKey q := fun a b =>
    (hmem a b).trans (link_iff hlength).symm
  refine ⟨(childPairs links).map (Arc.map (place φ')), ?_, ?_, fun e => ?_⟩
  · rw [h'.arcs, harcs, List.map_append, ← h.map_place hadv.keeps]
  · refine (childPairs_nodup hnodup).map_on fun e he e' he' heq => ?_
    have hends : ∀ e ∈ childPairs links, φ' e.source = some (place φ' e.source) ∧
        φ' e.target = some (place φ' e.target) := by
      intro e he
      obtain ⟨a, b, hab, he⟩ := mem_childPairs.mp he
      obtain ⟨p, q, hlink, rfl, rfl⟩ := (hlinks a b).mp hab
      rcases he with rfl | rfl
      · exact ⟨hplaced hlink.1, hplaced hlink.2.1⟩
      · exact ⟨hplaced hlink.2.1, hplaced hlink.1⟩
    obtain ⟨hsource, htarget⟩ := hends e he
    obtain ⟨hsource', htarget'⟩ := hends e' he'
    obtain ⟨s, t, l⟩ := e
    obtain ⟨s', t', l'⟩ := e'
    obtain ⟨hs, ht, rfl⟩ := Arc.mk.inj heq
    rw [h'.inj s s' _ hsource (hsource'.trans (congrArg some hs.symm)),
      h'.inj t t' _ htarget (htarget'.trans (congrArg some ht.symm))]
  · rw [List.mem_map]
    constructor
    · rintro ⟨x, hx, rfl⟩
      obtain ⟨a, b, hab, hx⟩ := mem_childPairs.mp hx
      obtain ⟨p, q, hlink, rfl, rfl⟩ := (hlinks a b).mp hab
      refine ⟨p, q, _, _, hlink, (h'.ids _).trans (hplaced hlink.1),
        (h'.ids _).trans (hplaced hlink.2.1), ?_⟩
      rcases hx with rfl | rfl
      · exact .inl rfl
      · exact .inr rfl
    · rintro ⟨p, q, u, v, hlink, hu, hv, he⟩
      have hab := (hlinks _ _).mpr ⟨p, q, hlink, rfl, rfl⟩
      rw [h'.ids] at hu hv
      rcases he with rfl | rfl
      · refine ⟨_, mem_childPairs.mpr ⟨_, _, hab, .inl rfl⟩, ?_⟩
        rw [Arc.map, place_eq hu, place_eq hv]
      · refine ⟨_, mem_childPairs.mpr ⟨_, _, hab, .inr rfl⟩, ?_⟩
        rw [Arc.map, place_eq hu, place_eq hv]

/-- The graph after the module is the tree of prefixes. -/
lemma prefixTree_of_advance {φ' : Key → Option VertexT} {g' : Graph n}
    (hadv : Advance φ g φ' g' (T.run (supermucOps hostnames))) : PrefixTree hostnames g g' := by
  have h' := hadv.rep
  refine ⟨h'.wellFormed, fun id v hid => ?_, fun p hp =>
    ⟨_, (h'.ids _).trans (place_nodeKey hlength h' hp)⟩, fun id v hid => ?_, fun v hge hlt => ?_,
    supermuc_edges h hsystem hlength hadv⟩
  · rw [h.ids] at hid
    rw [h'.ids]
    exact hadv.keeps _ _ hid
  · rw [h'.ids] at hid
    rcases node_of_placed h hlength hadv hid with hold | ⟨p, hp, hkey⟩
    · exact .inl ((h.ids id).trans hold)
    · exact .inr ⟨p, hp, Key.name.inj hkey⟩
  · obtain ⟨k, hk⟩ := h'.surj v hlt
    rcases node_of_placed h hlength hadv hk with hold | ⟨p, hp, rfl⟩
    · exact absurd (h.lt k v hold) (not_lt.mpr hge)
    · exact ⟨p, hp, (h'.ids _).trans hk⟩

end

/-- **The hierarchy is the tree of the prefixes of the host names**, and the same names in
any other order, each any number of times, give the same graph up to the numbers of the new
vertices and repetitions of adapters. -/
theorem makeSupermucGraph_prefixTree {g : Graph n} (hg : g.WellFormed)
    (hsystem : ∀ name, g.lookup (systemId name) = none) {hostnames : List String}
    (hnames : ∀ hostname ∈ hostnames, SupermucName hostname) :
    PrefixTree hostnames g (makeSupermucGraph g hostnames) ∧
    ∀ hostnames', (∀ hostname, hostname ∈ hostnames' ↔ hostname ∈ hostnames) →
      ∃ f, (∀ v < g.numVertices, f v = v) ∧ Graph.SameUpToRepetition f
        (makeSupermucGraph g hostnames) (makeSupermucGraph g hostnames') := by
  have hlength : ∀ hostname ∈ hostnames, hostname.length = 12 := fun hostname hmem =>
    (hnames hostname hmem).length
  obtain ⟨φ, T, h, -⟩ := exists_represents hg
  obtain ⟨φ₁, hadv₁, -⟩ := makeSupermucGraph_advance h hostnames
  refine ⟨prefixTree_of_advance h hsystem hlength hadv₁, fun hostnames' hsame => ?_⟩
  obtain ⟨φ₂, hadv₂, -⟩ := makeSupermucGraph_advance h hostnames'
  obtain ⟨f, hbij, hkey, hvertex, hedges⟩ := hadv₁.rep.exists_iso hadv₂.rep.toNumbers
    (supermuc_equiv h hsystem hlength hsame)
  have hread : ∀ v < (makeSupermucGraph g hostnames).numVertices,
      RepeatedVertex ((makeSupermucGraph g hostnames).vertex v)
        ((makeSupermucGraph g hostnames').vertex (f v)) := by
    intro v hv
    obtain ⟨y, hy, hrel⟩ := hvertex v _ (List.getElem?_eq_getElem hv)
    rw [Graph.vertex, Graph.vertex, List.getElem?_eq_getElem hv, hy]
    exact hrel
  refine ⟨f, fun v hv => ?_, hbij, fun id => ?_, hedges, hadv₂.root.trans hadv₁.root.symm,
    fun v hv => (hread v hv).1, fun v hv => (hread v hv).2.1, fun v hv => (hread v hv).2.2⟩
  · -- both runs leave the earlier vertices where they are
    obtain ⟨k, hk⟩ := h.surj v hv
    have himage := hkey k
    rw [hadv₁.keeps k v hk, hadv₂.keeps k v hk] at himage
    exact (Option.some.inj himage).symm
  · rw [hadv₁.rep.ids, hadv₂.rep.ids, hkey]

theorem makeSupermucGraph_prefixTree_twoHosts :
    PrefixTree ["i01r01c01s01", "i01r01c01s02"] ({} : Graph 0)
      (makeSupermucGraph {} ["i01r01c01s01", "i01r01c01s02"]) ∧
    ∀ hostnames', (∀ hostname, hostname ∈ hostnames' ↔
        hostname ∈ ["i01r01c01s01", "i01r01c01s02"]) →
      ∃ f, (∀ v < ({} : Graph 0).numVertices, f v = v) ∧ Graph.SameUpToRepetition f
        (makeSupermucGraph ({} : Graph 0) ["i01r01c01s01", "i01r01c01s02"])
        (makeSupermucGraph {} hostnames') := by
  refine makeSupermucGraph_prefixTree Represents.empty.wellFormed (fun _ => rfl)
    fun hostname hmem => ?_
  rcases List.mem_pair.mp hmem with rfl | rfl
  · rw [SupermucName]
    decide
  · rw [SupermucName]
    decide

end Yloc
