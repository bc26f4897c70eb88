import Yloc.GraphView
import Yloc.Growth
import Yloc.Lib.Lines
import Yloc.PropertyLookup

/-!
`write_graph_dot_file`.

The file has a line for each vertex and each edge of the graph or view. The label of a
vertex is its text, a line with its descriptor and a line for each property asked for that
has a value; descriptions are free text and may contain anything, line breaks included.
A `DotFile` is what `boost::write_graphviz` is given: the vertices and edges with their
labels.

* `vertexLabel_eq_iff`: what a label tells.
* `writeGraphDotFile_eq_iff`: what the file tells of the graph. With labels on the edges
  that is everything but the identifiers, the root vertex and the properties not asked for;
  without them, as by default, the types of the edges are lost too.
-/

namespace Yloc

variable {n : ℕ}

/-- The label of a vertex. -/
def vertexLabel (g : Graph n) (vertexProperties : List String) (vd : VertexT) : String :=
  vertexProperties.foldl
    (fun ss property =>
      match (g.vertex vd).getString property with
      | some p => ss ++ (property ++ "=" ++ p ++ "\n")
      | none => ss)
    ((g.vertex vd).toString ++ "\nVD=" ++ toString vd ++ "\n")

/-- The label of an edge. -/
def edgeLabel (edgeLabels : Bool) (edgetype : EdgeType) : String :=
  if edgeLabels then
    match edgetype with
    | .parent => "parent"
    | .child => "child"
    | .gpuInterconnect => "gpu2gpu"
    | .edgeTypeMax => ""
  else ""

/-- What `boost::write_graphviz` is given. -/
structure DotFile where
  vertices : List (VertexT × String)
  edges : List ((VertexT × VertexT) × String)
  deriving DecidableEq, Repr

/-- `write_graph_dot_file(g, dot_file_name, vertex_properties, edge_labels)` of the graph or
of a view of it. -/
def writeGraphDotFile (g : Graph n) (view : GraphView) (vertexProperties : List String)
    (edgeLabels : Bool := false) : DotFile where
  vertices := view.vertexRange.map fun vd => (vd, vertexLabel g vertexProperties vd)
  edges := view.edgeRange.map fun e => ((e.source, e.target), edgeLabel edgeLabels e.1.label)

/-- The names of the global map. -/
def predefinedProperties : List String := (Adapter.map : List (String × Property 0)).map Prod.fst

/-! ### What is printed of a property -/

/-- A value is printed on one line, which tells the value. -/
structure Legible {T : TypeId} (print : T.denote n → String) : Prop where
  oneLine : ∀ x, '\n' ∉ (print x).toList
  injective : Function.Injective print

/-- Decimal notation is made of digits. -/
lemma isDigit_of_mem_toString {k : ℕ} {c : Char} (h : c ∈ (toString k).toList) :
    c.isDigit = true := by
  rw [show toString k = Nat.repr k from rfl, Nat.toList_repr] at h
  exact Nat.isDigit_of_mem_toDigits (by decide) (by decide) h

lemma newline_notMem_toString (k : ℕ) : '\n' ∉ (toString k).toList :=
  fun h => absurd (isDigit_of_mem_toString h) (by decide)

/-- The notation of an integer. -/
lemma toList_intToString (k : ℤ) : (toString k).toList =
    if 0 ≤ k then (toString k.toNat).toList else '-' :: (toString (-k).toNat).toList := by
  rw [Int.toString_eq_repr, Int.repr_eq_if]
  split
  · rfl
  · rw [String.toList_append]
    rfl

lemma newline_notMem_intToString (k : ℤ) : '\n' ∉ (toString k).toList := by
  rw [toList_intToString]
  split
  · exact newline_notMem_toString _
  · rw [List.mem_cons, not_or]
    exact ⟨by decide, newline_notMem_toString _⟩

lemma intToString_injective : Function.Injective (toString : ℤ → String) := by
  intro a b h
  have hdigits : ∀ {j k : ℕ}, (toString j).toList = (toString k).toList → j = k :=
    fun h => natToString_injective (String.toList_inj.mp h)
  -- a number that begins with a minus is not made of digits
  have hminus : ∀ (j : ℕ) (l : List Char), (toString j).toList ≠ '-' :: l := by
    intro j l hl
    exact absurd (isDigit_of_mem_toString (hl ▸ List.mem_cons_self)) (by decide)
  have hlist := String.toList_inj.mpr h
  rw [toList_intToString, toList_intToString] at hlist
  split at hlist <;> split at hlist
  · have := hdigits hlist
    omega
  · exact absurd hlist (hminus _ _)
  · exact absurd hlist.symm (hminus _ _)
  · have := hdigits (List.cons.inj hlist).2
    omega

/-- The types of the global map. -/
lemma legible_of_lookup {name : String} {p : Property n}
    (hp : Adapter.map.lookup name = some p) : Legible ((StreamOut.standard n).print p.typeId) := by
  have huint64 : Legible ((StreamOut.standard n).print .uint64) :=
    ⟨fun x => newline_notMem_toString x.toNat,
      fun x y h => UInt64.toNat_inj.mp (natToString_injective h)⟩
  have hint64 : Legible ((StreamOut.standard n).print .int64) :=
    ⟨fun x => newline_notMem_intToString x.toInt,
      fun x y h => Int64.toInt_inj.mp (intToString_injective h)⟩
  have hmask : Legible ((StreamOut.standard n).print .affinityMask) := by
    refine ⟨fun (m : AffinityMask n) h => ?_, fun (a b : AffinityMask n) h => ?_⟩
    · rw [StreamOut.affinityMask, String.toList_ofList] at h
      obtain ⟨cpu, -, hbit⟩ := List.mem_map.mp h
      split at hbit <;> exact absurd hbit (by decide)
    · rw [StreamOut.affinityMask, StreamOut.affinityMask, ← String.toList_inj,
        String.toList_ofList, String.toList_ofList, List.map_inj_left] at h
      refine AffinityMask.ext fun cpu hcpu => ?_
      have hbit := h cpu (List.mem_reverse.mpr (List.mem_range.mpr hcpu))
      cases ha : a.get cpu <;> cases hb : b.get cpu <;> simp [ha, hb] at hbit ⊢
  have hall : ∀ e ∈ (Adapter.map : List (String × Property n)),
      Legible ((StreamOut.standard n).print e.2.typeId) := by
    simp only [Adapter.map, List.forall_mem_cons, Property.ofUInt64, Property.ofInt64,
      Property.ofMask, huint64, hint64, hmask, true_and, List.not_mem_nil, false_implies,
      implies_true]
  obtain ⟨l₁, l₂, hmap, -⟩ := List.lookup_eq_some_iff.mp hp
  exact hall (name, p) (by rw [hmap]; simp)

/-- A property of the global map has a value of one type, which is printed on one line. -/
lemma getString_of_lookup {v : Vertex n} {name : String} {p : Property n}
    (hp : Adapter.map.lookup name = some p) :
    v.getString name = (v.get p.typeId name).map ((StreamOut.standard n).print p.typeId) := by
  refine GraphElement.get_string_eq_map _ (fun p' hp' => ?_) (fun hnone => ?_)
  · rw [Option.some.inj (hp'.symm.trans hp)]
  · rw [hp] at hnone
    cases hnone

/-- The printed value tells the value of every type. -/
lemma getString_eq_iff {v w : Vertex n} {name : String} {p : Property n}
    (hp : Adapter.map.lookup name = some p) :
    v.getString name = w.getString name ↔ ∀ rt, v.get rt name = w.get rt name := by
  refine ⟨fun h rt => ?_, fun h => h .string⟩
  by_cases hstring : rt = .string
  · subst hstring
    exact h
  · by_cases hrt : rt = p.typeId
    · subst hrt
      rw [getString_of_lookup hp, getString_of_lookup hp] at h
      exact Option.map_injective (legible_of_lookup hp).injective h
    · rw [GraphElement.get_of_ne hstring, GraphElement.get_of_ne hstring,
        GraphElement.getTyped_of_ne hp (Ne.symm hrt), GraphElement.getTyped_of_ne hp (Ne.symm hrt)]

/-! ### The text of a vertex -/

namespace Component

/-- The types. -/
def all : List Component :=
  [component, unknownComponentType, node, compute, cpuCore, logicalCore, physicalCore,
    storage, memory, cache, persistentStorage, volatileMemory, nonVolatileMemory, dataCache,
    instructionCache, unifiedCache, l1Cache, l2Cache, l3Cache, l4Cache, l1DataCache, l2DataCache,
    l3DataCache, l4DataCache, l1InstructionCache, l2InstructionCache, l3InstructionCache,
    l4InstructionCache, l1UnifiedCache, l2UnifiedCache, l3UnifiedCache, l4UnifiedCache,
    solidStateDrive, hardDiskDrive, pciDevice, bridge, logicalAccelerator, logicalGPU,
    accelerator, gpu, fpga, gpuCore, gpuMemory, inputOutput, networkDevice, link, bus, misc,
    logicalEdgeType, parent, child, logicalComponent, mpiProcess]

lemma mem_all (t : Component) : t ∈ all := by cases t <;> decide

/-- No two types have one name. -/
lemma toString_injective : Function.Injective toString := by
  have hnodup : (all.map toString).Nodup := by decide +kernel
  exact fun a b h => List.inj_on_of_nodup_map hnodup (mem_all a) (mem_all b) h

/-- The name ends at the first colon. -/
lemma colon_notMem (t : Component) : ':' ∉ t.toString.toList := by
  have hall : ∀ t ∈ all, ':' ∉ t.toString.toList := by decide +kernel
  exact hall t (mem_all t)

end Component

/-- The text of a vertex tells its type and its description. -/
lemma toString_eq_iff {v w : Vertex n} :
    v.toString = w.toString ↔ v.mType = w.mType ∧ v.mDescription = w.mDescription := by
  have htext : ∀ u : Vertex n, u.toString.toList =
      u.mType.toString.toList ++ ':' :: ' ' :: u.mDescription.toList := by
    intro u
    rw [GraphElement.toString, String.toList_append, String.toList_append, List.append_assoc]
    rfl
  rw [← String.toList_inj, htext, htext,
    List.sep_append_inj (Component.colon_notMem _) (Component.colon_notMem _), String.toList_inj,
    Component.toString_injective.eq_iff, List.cons.injEq, String.toList_inj]
  tauto

/-! ### The label of a vertex -/

/-- The properties that have a value, with it. -/
def printedProperties (v : Vertex n) (vertexProperties : List String) : List (String × String) :=
  vertexProperties.filterMap fun property => (v.getString property).map (Prod.mk property)

/-- The line of a property. -/
def propertyLine (e : String × String) : List Char := e.1.toList ++ '=' :: e.2.toList

lemma mem_printedProperties {v : Vertex n} {vertexProperties : List String} {e : String × String} :
    e ∈ printedProperties v vertexProperties ↔
      e.1 ∈ vertexProperties ∧ v.getString e.1 = some e.2 := by
  simp only [printedProperties, List.mem_filterMap, Option.map_eq_some_iff]
  constructor
  · rintro ⟨name, hname, x, hx, rfl⟩
    exact ⟨hname, hx⟩
  · rintro ⟨hname, hx⟩
    exact ⟨e.1, hname, e.2, hx, rfl⟩

/-- **The label** is the text of the vertex and then lines. -/
lemma vertexLabel_toList (g : Graph n) (vertexProperties : List String) (vd : VertexT) :
    (vertexLabel g vertexProperties vd).toList = (g.vertex vd).toString.toList ++
      List.inLines '\n' (propertyLine ("VD", toString vd) ::
        (printedProperties (g.vertex vd) vertexProperties).map propertyLine) ++ ['\n'] := by
  -- the loop over the properties writes the lines
  have hloop : ∀ (ss : String) (text : List Char), ss.toList = text ++ ['\n'] →
      (vertexProperties.foldl
        (fun ss property =>
          match (g.vertex vd).getString property with
          | some p => ss ++ (property ++ "=" ++ p ++ "\n")
          | none => ss) ss).toList =
        text ++ List.inLines '\n'
          ((printedProperties (g.vertex vd) vertexProperties).map propertyLine) ++ ['\n'] := by
    induction vertexProperties with
    | nil =>
        intro ss text hss
        simpa [printedProperties, List.inLines] using hss
    | cons property vertexProperties ih =>
        intro ss text hss
        rw [List.foldl_cons, printedProperties, List.filterMap_cons]
        cases hp : (g.vertex vd).getString property with
        | none => exact ih ss text hss
        | some p =>
            have hline : (ss ++ (property ++ "=" ++ p ++ "\n")).toList =
                text ++ '\n' :: propertyLine (property, p) ++ ['\n'] := by
              simp [String.toList_append, hss, propertyLine]
            rw [ih _ _ hline]
            simp [List.inLines, printedProperties]
  rw [vertexLabel, hloop _ ((g.vertex vd).toString.toList ++
    '\n' :: propertyLine ("VD", toString vd)) (by simp [String.toList_append, propertyLine])]
  simp [List.inLines]

/-- What the names and values of the global map look like. -/
lemma predefined_spec {v : Vertex n} {name : String} (hname : name ∈ predefinedProperties) :
    (∃ p : Property n, Adapter.map.lookup name = some p) ∧ '=' ∉ name.toList ∧
      '\n' ∉ name.toList ∧ name ≠ "VD" ∧ ∀ x, v.getString name = some x → '\n' ∉ x.toList := by
  have hall : ∀ name ∈ predefinedProperties, '=' ∉ name.toList ∧ '\n' ∉ name.toList ∧
      name ≠ "VD" := by decide
  have hlookup : ∃ p : Property n, Adapter.map.lookup name = some p := by
    rw [← Option.isSome_iff_exists, List.lookup_isSome_iff]
    obtain ⟨e, he, rfl⟩ := List.mem_map.mp (show name ∈
      (Adapter.map : List (String × Property n)).map Prod.fst from hname)
    exact ⟨e, he, beq_self_eq_true _⟩
  obtain ⟨hsep, hline, hvd⟩ := hall name hname
  refine ⟨hlookup, hsep, hline, hvd, fun x hx => ?_⟩
  obtain ⟨p, hp⟩ := hlookup
  rw [getString_of_lookup hp] at hx
  obtain ⟨value, -, rfl⟩ := Option.map_eq_some_iff.mp hx
  exact (legible_of_lookup hp).oneLine value

section

variable {g g' : Graph n} {vertexProperties : List String}

/-- **What a label tells**: the text of the vertex and what is printed of the properties. -/
theorem vertexLabel_eq_iff (hnames : ∀ name ∈ vertexProperties, name ∈ predefinedProperties)
    (vd : VertexT) :
    vertexLabel g vertexProperties vd = vertexLabel g' vertexProperties vd ↔
      (g.vertex vd).toString = (g'.vertex vd).toString ∧
      ∀ name ∈ vertexProperties, (g.vertex vd).getString name = (g'.vertex vd).getString name := by
  have hvd' : '=' ∉ "VD".toList := by decide
  -- no line of a property reads as the one of the descriptor
  have hlines : ∀ (v : Vertex n), ∀ l ∈ (printedProperties v vertexProperties).map propertyLine,
      '\n' ∉ l ∧ l ≠ propertyLine ("VD", toString vd) := by
    intro v l hl
    obtain ⟨e, he, rfl⟩ := List.mem_map.mp hl
    obtain ⟨hname, hx⟩ := mem_printedProperties.mp he
    obtain ⟨-, hsep, hline, hvd, hvalue⟩ := predefined_spec (v := v) (hnames _ hname)
    refine ⟨?_, fun heq => ?_⟩
    · rw [propertyLine, List.mem_append, List.mem_cons]
      rintro (h | h | h)
      · exact hline h
      · exact absurd h (by decide)
      · exact hvalue _ hx h
    · exact hvd (String.toList_inj.mp ((List.sep_append_inj hsep hvd').mp heq).1)
  have hhead : '\n' ∉ propertyLine ("VD", toString vd) := by
    rw [propertyLine, List.mem_append, List.mem_cons]
    rintro (h | h | h)
    · exact absurd (show '\n' ∈ "VD".toList from h) (by decide)
    · exact absurd h (by decide)
    · exact newline_notMem_toString vd h
  -- the lines tell the values
  have hvalues : ∀ v w : Vertex n, (printedProperties v vertexProperties).map propertyLine =
      (printedProperties w vertexProperties).map propertyLine → ∀ name ∈ vertexProperties,
      ∀ x, v.getString name = some x → w.getString name = some x := by
    intro v w heq name hname x hx
    have hmem : propertyLine (name, x) ∈ (printedProperties v vertexProperties).map propertyLine :=
      List.mem_map_of_mem (mem_printedProperties.mpr ⟨hname, hx⟩)
    rw [heq] at hmem
    obtain ⟨e, he, hline⟩ := List.mem_map.mp hmem
    obtain ⟨hname', hx'⟩ := mem_printedProperties.mp he
    obtain ⟨-, hsep, -⟩ := predefined_spec (v := v) (hnames _ hname)
    obtain ⟨-, hsep', -⟩ := predefined_spec (v := v) (hnames _ hname')
    obtain ⟨hfst, hsnd⟩ := (List.sep_append_inj hsep' hsep).mp hline
    rwa [String.toList_inj.mp hfst, String.toList_inj.mp hsnd] at hx'
  rw [← String.toList_inj, vertexLabel_toList, vertexLabel_toList, List.append_cancel_right_eq,
    List.append_inLines_inj hhead (hlines _) (hlines _), String.toList_inj]
  refine and_congr_right fun _ => ⟨fun h name hname => Option.ext fun x => ?_, fun h => ?_⟩
  · exact ⟨hvalues _ _ h name hname x, hvalues _ _ h.symm name hname x⟩
  · congr 1
    exact List.filterMap_congr fun name hname => by rw [h name hname]

example : vertexLabel startedGraph ["memory", "power"] 0 =
    "UnknownComponentType: \nVD=0\nmemory=64\n" := by decide

/-! ### The file -/

/-- The labelled vertices. -/
lemma labelledVertices_eq_iff {label label' : VertexT → String} {vds vds' : List VertexT} :
    (vds.map fun vd => (vd, label vd)) = (vds'.map fun vd => (vd, label' vd)) ↔
      vds = vds' ∧ ∀ vd ∈ vds, label vd = label' vd := by
  refine ⟨fun h => ?_, fun h => ?_⟩
  · have hvds : vds = vds' := by
      simpa [Function.comp_def] using congrArg (List.map Prod.fst) h
    rw [← hvds, List.map_inj_left] at h
    exact ⟨hvds, fun vd hvd => (Prod.mk.inj (h vd hvd)).2⟩
  · rw [← h.1]
    exact List.map_congr_left fun vd hvd => by rw [h.2 vd hvd]

/-- Labels tell the types of edges. -/
lemma edgeLabel_injective : Function.Injective (edgeLabel true) := by
  intro a b h
  cases a <;> cases b <;> first | rfl | exact absurd h (by decide)

/-- The labelled edges. -/
lemma labelledEdges_eq_iff {edges edges' : List EdgeT} (edgeLabels : Bool) :
    (edges.map fun e => ((e.source, e.target), edgeLabel edgeLabels e.1.label)) =
        (edges'.map fun e => ((e.source, e.target), edgeLabel edgeLabels e.1.label)) ↔
      (edges.map fun e => (e.source, e.target)) = (edges'.map fun e => (e.source, e.target)) ∧
      (edgeLabels = true →
        (edges.map fun e => e.1.label) = (edges'.map fun e => e.1.label)) := by
  have hzip : ∀ l : List EdgeT,
      (l.map fun e => ((e.source, e.target), edgeLabel edgeLabels e.1.label)) =
        (l.map fun e => (e.source, e.target)).zip
          ((l.map fun e => e.1.label).map (edgeLabel edgeLabels)) := by
    intro l
    rw [List.map_map, List.zip_map']
    rfl
  constructor
  · intro h
    have hends := congrArg (List.map Prod.fst) h
    have hlabels := congrArg (List.map Prod.snd) h
    simp only [List.map_map, Function.comp_def] at hends hlabels
    refine ⟨hends, fun hedge => ?_⟩
    subst hedge
    refine (List.map_injective_iff.mpr edgeLabel_injective) ?_
    rw [List.map_map, List.map_map]
    exact hlabels
  · rintro ⟨hends, hlabels⟩
    rw [hzip, hzip, hends]
    cases edgeLabels with
    | true => rw [hlabels rfl]
    | false =>
        -- the same empty label on every edge
        have hlength : edges.length = edges'.length := by simpa using congrArg List.length hends
        have hempty : ∀ l : List EdgeType,
            l.map (edgeLabel false) = List.replicate l.length "" := fun l => List.map_const'
        rw [hempty, hempty, List.length_map, List.length_map, hlength]

/-- **What the file tells**: the vertices of the view, their types, descriptions and values of
the properties asked for, of every type, and the edges of the view with their ends, in their
order; the types of the edges if they have labels, and nothing else. -/
theorem writeGraphDotFile_eq_iff (view view' : GraphView)
    (hnames : ∀ name ∈ vertexProperties, name ∈ predefinedProperties) (edgeLabels : Bool) :
    writeGraphDotFile g view vertexProperties edgeLabels =
        writeGraphDotFile g' view' vertexProperties edgeLabels ↔
      (view.vertexRange = view'.vertexRange ∧
      ∀ vd ∈ view.vertexRange, (g.vertex vd).mType = (g'.vertex vd).mType ∧
        (g.vertex vd).mDescription = (g'.vertex vd).mDescription ∧
        ∀ name ∈ vertexProperties, ∀ rt, (g.vertex vd).get rt name = (g'.vertex vd).get rt name) ∧
      (view.edgeRange.map fun e => (e.source, e.target)) =
        (view'.edgeRange.map fun e => (e.source, e.target)) ∧
      (edgeLabels = true →
        (view.edgeRange.map fun e => e.1.label) = (view'.edgeRange.map fun e => e.1.label)) := by
  rw [writeGraphDotFile, writeGraphDotFile, DotFile.mk.injEq, labelledVertices_eq_iff,
    labelledEdges_eq_iff]
  refine and_congr (and_congr_right fun _ => forall₂_congr fun vd _ => ?_) Iff.rfl
  rw [vertexLabel_eq_iff hnames, toString_eq_iff, and_assoc]
  refine and_congr_right fun _ => and_congr_right fun _ => forall₂_congr fun name hname => ?_
  obtain ⟨⟨p, hp⟩, -⟩ := predefined_spec (v := g.vertex vd) (hnames name hname)
  exact getString_eq_iff hp

end

/-- The memory of the GPU is in the file. -/
theorem writeGraphDotFile_eq_iff_startedGraph :
    writeGraphDotFile startedGraph startedGraph.view ["memory"] true ≠
      writeGraphDotFile (startedGraph.modify 0 fun _ => {}) startedGraph.view ["memory"] true := by
  rw [Ne, writeGraphDotFile_eq_iff _ _ (by decide)]
  rintro ⟨⟨-, h⟩, -⟩
  have hmemory := (h 0 (by decide)).2.2 "memory" List.mem_cons_self .uint64
  cases hmemory

end Yloc
