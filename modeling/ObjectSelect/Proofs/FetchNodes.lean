import ObjectSelect.Proofs.Ownership
import ObjectSelect.Proofs.Resolver

/-!
# Equal nodes of fetch trees

Nodes are compared by their paths, but the root and the depth of a node are read off the tree that
it was made in. The two agree as far as the path of the root is known: the path of a node is that of
its root, and one association more for each step down (`FetchNode.length_segments_path`,
`FetchNode.rootPath_eq_take`). So a path and the level of its root determine everything else, and
equal nodes can stand for each other just when their roots are at one level
(`FetchNode.interchangeable_iff`).

Any path can be made the root of a tree, also one that follows associations, so there are equal
nodes with roots at different levels. Lowering makes roots of entities of the query only, which are
all at level zero. The nodes that a query asks for can therefore stand for each other whenever they
are equal (`Query.interchangeable_of_mem_demands`).
-/

set_option autoImplicit false
set_option relaxedAutoImplicit false

namespace ObjectSelect

namespace FetchNode

/-- The topmost node of the tree that a node is in. -/
def topmost : FetchNode → FetchNode
  | root path => root path
  | fetch parent _ => parent.topmost

/-- The number of associations from an entity of the query to the root of a node's tree. -/
def rootLevel (node : FetchNode) : Nat :=
  node.rootPath.segments.length

theorem path_topmost (node : FetchNode) : node.topmost.path = node.rootPath := by
  induction node with
  | root path => rfl
  | fetch parent segment ih => exact ih

theorem beq_iff_path_eq {a b : FetchNode} : (a == b) = true ↔ a.path = b.path :=
  beq_iff_eq (a := a.path)

theorem topmost_beq_iff {a b : FetchNode} :
    (a.topmost == b.topmost) = true ↔ a.rootPath = b.rootPath := by
  rw [beq_iff_path_eq, path_topmost, path_topmost]

/-- A path has the associations of the root's path and one for each step down from there. -/
theorem length_segments_path (node : FetchNode) :
    node.path.segments.length = node.rootLevel + node.depth := by
  induction node with
  | root path => rfl
  | fetch parent segment ih =>
    have hlevel : (fetch parent segment).rootLevel = parent.rootLevel := rfl
    rw [path, Path.append, List.length_append, ih, hlevel, depth]
    rfl

/-- The path of the root is where a path begins. -/
theorem rootPath_eq_take (node : FetchNode) : node.rootPath =
    { node.path with segments := node.path.segments.take node.rootLevel } := by
  induction node with
  | root path => simp [rootLevel, rootPath, FetchNode.path]
  | fetch parent segment ih =>
    have hlevel : parent.rootLevel ≤ parent.path.segments.length := by
      have hlength := parent.length_segments_path
      omega
    have hsegments : (fetch parent segment).path.segments.take parent.rootLevel =
        parent.path.segments.take parent.rootLevel :=
      List.take_append_of_le_length hlevel
    change parent.rootPath = { parent.path with
      segments := (fetch parent segment).path.segments.take parent.rootLevel }
    rw [hsegments]
    exact ih

theorem rootPath_eq_iff {a b : FetchNode} (h : a.path = b.path) :
    a.rootPath = b.rootPath ↔ a.rootLevel = b.rootLevel := by
  constructor
  · intro hroot
    rw [rootLevel, rootLevel, hroot]
  · intro hlevel
    rw [a.rootPath_eq_take, b.rootPath_eq_take, h, hlevel]

theorem depth_eq_iff {a b : FetchNode} (h : a.path = b.path) :
    a.depth = b.depth ↔ a.rootLevel = b.rootLevel := by
  have ha := a.length_segments_path
  have hb := b.length_segments_path
  rw [h] at ha
  omega

theorem scope_eq_iff {flat : Bool} {a b : FetchNode} :
    Scope.of flat (some a) = Scope.of flat (some b) ↔ flat = true ∨ a.rootPath = b.rootPath := by
  cases flat <;> simp [Scope.of]

/-- In a block that has selected nothing, the first request of a fetch tree leaves a table with the
path of the tree's root. -/
theorem exists_select_start (node : FetchNode) (e : Expr) (type : ValueType) :
    ∃ item after, Frame.select e type (some node) (.start (.spec (.ofTables [])) false) =
        .ok item after ∧
      ∀ path, (after.cache.find? (.fetchRoot path) e).isSome = true ↔ path = node.rootPath := by
  have hready : SelectionCache.unused.ready (.fetchRoot node.rootPath) =
      .ok (.perRoot [(node.rootPath, [])]) := rfl
  have hnone (path : Path) :
      (SelectionCache.perRoot [(node.rootPath, [])]).find? (.fetchRoot path) e = none :=
    SelectionCache.find?_of_ready hready (.fetchRoot path) e
  refine ⟨_, _, Frame.select_of_not_find type hready (hnone _) rfl, fun path ↦ ?_⟩
  change (SelectionCache.find? (.fetchRoot path) e
    (.put (.fetchRoot node.rootPath) e _ (.perRoot [(node.rootPath, [])]))).isSome = true ↔ _
  rw [SelectionCache.find?_put hready (by simp), hnone]
  by_cases hpath : path = node.rootPath <;> simp [hpath]

/-- Requests for two nodes are answered alike in every block just when the nodes have one root. -/
theorem select_eq_iff {a b : FetchNode} :
    (∀ e type, Frame.select e type (some a) = Frame.select e type (some b)) ↔
      a.rootPath = b.rootPath := by
  constructor
  · intro hselect
    obtain ⟨item, after, ha, hfinda⟩ := a.exists_select_start (.parameter 1) .int
    obtain ⟨item', after', hb, hfindb⟩ := b.exists_select_start (.parameter 1) .int
    rw [hselect, hb] at ha
    cases ha
    exact (hfindb a.rootPath).mp ((hfinda a.rootPath).mpr rfl)
  · intro hroot e type
    have hscope (flat : Bool) : Scope.of flat (some a) = Scope.of flat (some b) :=
      scope_eq_iff.mpr (.inr hroot)
    simp only [Frame.select, hscope]

/-- When equal nodes can stand for each other. Their topmost nodes are equal, their depths are
equal, and requests for them are answered alike in every block, each just when their roots are at
one level. The scope of a block that shares throughout is one and the same anyway; in a block that
shares within fetch trees the nodes have one scope just when their roots are at one level. -/
theorem interchangeable_iff {a b : FetchNode} (h : (a == b) = true) :
    ((a.topmost == b.topmost) = true ↔ a.rootLevel = b.rootLevel) ∧
    (a.depth = b.depth ↔ a.rootLevel = b.rootLevel) ∧
    (∀ flat, Scope.of flat (some a) = Scope.of flat (some b) ↔
      flat = true ∨ a.rootLevel = b.rootLevel) ∧
    ((∀ e type, Frame.select e type (some a) = Frame.select e type (some b)) ↔
      a.rootLevel = b.rootLevel) := by
  have hpath := beq_iff_path_eq.mp h
  have hroot := rootPath_eq_iff hpath
  refine ⟨topmost_beq_iff.trans hroot, depth_eq_iff hpath, fun flat ↦ ?_,
    select_eq_iff.trans hroot⟩
  rw [scope_eq_iff, hroot]

/-- The items of a person's orders, once in the tree of the person and once in a tree of the orders
alone. -/
theorem items_not_interchangeable :
    let person : Path := .root "Person" (some "p")
    let items : FetchNode := .fetch (.fetch (.root person) "orders") "items"
    let other : FetchNode := .fetch (.root (person.append "orders")) "items"
    (items == other) = true ∧ (items.topmost == other.topmost) = false ∧
      items.depth ≠ other.depth ∧ Scope.of true (some items) = Scope.of true (some other) ∧
      Scope.of false (some items) ≠ Scope.of false (some other) ∧
      ¬ ∀ e type, Frame.select e type (some items) = Frame.select e type (some other) := by
  intro person items other
  have hsame : (items == other) = true := by decide
  have hlevel : items.rootLevel ≠ other.rootLevel := by decide
  obtain ⟨htopmost, hdepth, hscope, hselect⟩ := interchangeable_iff hsame
  refine ⟨hsame, ?_, hdepth.not.mpr hlevel, (hscope true).mpr (.inl rfl), ?_,
    hselect.not.mpr hlevel⟩
  · rw [Bool.eq_false_iff]
    exact htopmost.not.mpr hlevel
  · rw [Ne, hscope false]
    simp [hlevel]

/-- An address that is the root of a tree, and the address that is fetched with a person, are equal
nodes with different roots, depths and scopes. -/
theorem address_in_two_scopes :
    let address : FetchNode := .root ((Path.root "Person" none).append "address")
    let fetched : FetchNode := .fetch (.root (.root "Person" none)) "address"
    (address == fetched) = true ∧ (address.topmost == fetched.topmost) = false ∧
      address.depth = 0 ∧ fetched.depth = 1 ∧
      Scope.of false (some address) = .fetchRoot ⟨"Person", none, ["address"]⟩ ∧
      Scope.of false (some fetched) = .fetchRoot ⟨"Person", none, []⟩ :=
  ⟨by decide, by decide, rfl, rfl, rfl, rfl⟩

end FetchNode

/-! ### The nodes of a query -/

theorem QueryItem.exists_mem_of_mem_demandsAll {naming : Naming} {d : Demand}
    {items : List QueryItem} {seen : List Column} (h : d ∈ demandsAll naming seen items) :
    ∃ item ∈ items, ∃ before, d ∈ item.demands naming before := by
  induction items generalizing seen with
  | nil => simp [demandsAll] at h
  | cons item rest ih =>
    rw [demandsAll, List.mem_append] at h
    rcases h with hitem | hrest
    · exact ⟨item, List.mem_cons_self, seen, hitem⟩
    · obtain ⟨later, hlater, before, hd⟩ := ih hrest
      exact ⟨later, List.mem_cons_of_mem item hlater, before, hd⟩

namespace Query

variable {query : Query} {naming : Naming} {seen : List Column}

/-- The trees of a query have their roots at entities of the query. -/
theorem rootLevel_of_mem_demands {d : Demand} (h : d ∈ query.demands naming seen)
    {node : FetchNode} (hnode : d.node = some node) : node.rootLevel = 0 := by
  obtain ⟨selections, tables⟩ := query
  obtain ⟨item, -, before, hitem⟩ := QueryItem.exists_mem_of_mem_demandsAll h
  have hroot := QueryItem.root?_of_mem_demands hitem
  rw [Demand.root?, hnode, Option.map_some] at hroot
  cases item with
  | scalar | subquery => simp [QueryItem.root?] at hroot
  | entity graph =>
    have hpath : node.rootPath = .root graph.entity graph.label := Option.some.inj hroot
    rw [FetchNode.rootLevel, hpath]
    rfl

/-- Equal nodes that queries ask for can stand for each other. -/
theorem interchangeable_of_mem_demands {d later : Demand} (hd : d ∈ query.demands naming seen)
    {other : Query} {seen' : List Column} (hlater : later ∈ other.demands naming seen')
    {a b : FetchNode} (ha : d.node = some a) (hb : later.node = some b) (h : (a == b) = true) :
    a.rootPath = b.rootPath ∧ a.depth = b.depth ∧
      ∀ flat, Scope.of flat (some a) = Scope.of flat (some b) := by
  have hpath := FetchNode.beq_iff_path_eq.mp h
  have hlevel : a.rootLevel = b.rootLevel := by
    rw [rootLevel_of_mem_demands hd ha, rootLevel_of_mem_demands hlater hb]
  have hroot := (FetchNode.rootPath_eq_iff hpath).mpr hlevel
  refine ⟨hroot, (FetchNode.depth_eq_iff hpath).mpr hlevel, fun flat ↦ ?_⟩
  exact FetchNode.scope_eq_iff.mpr (.inr hroot)

end Query

end ObjectSelect
