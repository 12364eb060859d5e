import Mathlib.Data.List.Basic
import ObjectSelect.Proofs.Faults

/-!
# What the text of a path tells

The text of a path puts its names together with dots, and a label in parentheses behind the entity.
Nothing in a name is marked, so a dot of a name looks like one between two names, and an entity with
parentheses looks like an entity with a label. What the text tells is its pieces between dots, and
no more: two paths have one text just when they have the same pieces
(`Path.render_eq_iff_pieces_eq`). If the names have no dots of their own, and the entity no
parenthesis, the pieces are the names and tell the path (`Path.Plain.eq_of_render_eq`).

The faults of entities carry such a text. It is the text of a path of the query
(`Query.exists_path_of_fault?`), and if the paths of the query are plain it is the text of no other
(`Query.path_told_by_fault`).
-/

set_option autoImplicit false
set_option relaxedAutoImplicit false

namespace ObjectSelect

namespace Path

/-! ### Pieces between dots -/

/-- What stands behind the entity for its label. -/
def labelText : Option String → String
  | some label => "(" ++ label ++ ")"
  | none => ""

/-- The name that the text of a path begins with: the entity, with its label if it has one. -/
def rootName (p : Path) : String :=
  p.entity ++ labelText p.label

/-- The pieces of the names of a path: each name is cut at its own dots. -/
def pieces (p : Path) : List (List Char) :=
  (p.rootName :: p.segments).flatMap fun name ↦ name.toList.splitOn '.'

/-- A text that goes on with associations is cut where they begin, and at the dots in between. -/
theorem splitOn_append_segments (text : List Char) (segments : List String) :
    (text ++ (String.join (segments.map fun segment ↦ "." ++ segment)).toList).splitOn '.' =
      text.splitOn '.' ++ segments.flatMap fun segment ↦ segment.toList.splitOn '.' := by
  induction segments generalizing text with
  | nil => simp
  | cons segment rest ih =>
    have htext : text ++ (String.join ((segment :: rest).map fun segment ↦ "." ++ segment)).toList =
        text ++ '.' ::
          (segment.toList ++ (String.join (rest.map fun segment ↦ "." ++ segment)).toList) := by
      simp
    have hcut (rest : List Char) :
        (text ++ '.' :: rest).splitOn '.' = text.splitOn '.' ++ rest.splitOn '.' :=
      List.splitOnP_append_cons text rest (beq_self_eq_true '.')
    rw [htext, hcut, ih, List.flatMap_cons]

/-- Between its dots, the text of a path has the pieces of the path. -/
theorem splitOn_render (p : Path) : p.render.toList.splitOn '.' = p.pieces := by
  have hrender : p.render.toList = p.rootName.toList ++
      (String.join (p.segments.map fun segment ↦ "." ++ segment)).toList := by
    rw [← String.toList_append]
    rfl
  rw [hrender, splitOn_append_segments, pieces, List.flatMap_cons]

/-- Paths have the same text just when they have the same pieces. -/
theorem render_eq_iff_pieces_eq (p q : Path) : p.render = q.render ↔ p.pieces = q.pieces := by
  rw [← splitOn_render, ← splitOn_render]
  constructor
  · intro htext
    rw [htext]
  · intro hpieces
    have hjoin (text : List Char) : ['.'].intercalate (text.splitOn '.') = text :=
      List.intercalate_splitOn '.'
    rw [← String.toList_inj, ← hjoin p.render.toList, hpieces, hjoin]

/-! ### Names that keep clear of the signs between them -/

/-- No name of the path has a dot, and the entity has no opening parenthesis. -/
structure Plain (p : Path) : Prop where
  dot_notMem_entity : '.' ∉ p.entity.toList
  paren_notMem_entity : '(' ∉ p.entity.toList
  dot_notMem_label : ∀ label ∈ p.label, '.' ∉ label.toList
  dot_notMem_segments : ∀ segment ∈ p.segments, '.' ∉ segment.toList

theorem Plain.dot_notMem_rootName {p : Path} (h : p.Plain) : '.' ∉ p.rootName.toList := by
  rw [rootName]
  cases hlabel : p.label with
  | none => simpa [labelText] using h.dot_notMem_entity
  | some label => simp [labelText, h.dot_notMem_entity, h.dot_notMem_label label hlabel]

/-- The pieces of a plain path are its names. -/
theorem Plain.pieces_eq {p : Path} (h : p.Plain) :
    p.pieces = p.rootName.toList :: p.segments.map String.toList := by
  have hsegments : p.segments.flatMap (fun segment ↦ segment.toList.splitOn '.') =
      p.segments.map String.toList := by
    rw [← List.flatMap_pure_eq_map]
    exact List.flatMap_congr fun segment hsegment ↦
      List.splitOn_eq_singleton (h.dot_notMem_segments segment hsegment)
  rw [pieces, List.flatMap_cons, List.splitOn_eq_singleton h.dot_notMem_rootName, hsegments,
    List.singleton_append]

theorem labelText_injective {label other : Option String} (h : labelText label = labelText other) :
    label = other := by
  cases label <;> cases other <;> simp_all [labelText, ← String.toList_inj]

/-- An entity without parentheses reaches to where a label begins. -/
theorem takeWhile_rootName {p : Path} (h : '(' ∉ p.entity.toList) :
    p.rootName.toList.takeWhile (· != '(') = p.entity.toList := by
  have hentity : ∀ c ∈ p.entity.toList, (c != '(') = true := by
    intro c hc
    rw [bne_iff_ne]
    rintro rfl
    exact h hc
  rw [rootName, String.toList_append, List.takeWhile_append_of_pos hentity]
  cases p.label <;> simp [labelText]

theorem eq_of_rootName_eq {p q : Path} (hp : '(' ∉ p.entity.toList) (hq : '(' ∉ q.entity.toList)
    (h : p.rootName = q.rootName) : p.entity = q.entity ∧ p.label = q.label := by
  have hentity : p.entity = q.entity := by
    rw [← String.toList_inj, ← takeWhile_rootName hp, ← takeWhile_rootName hq, h]
  rw [rootName, rootName, hentity, ← String.toList_inj, String.toList_append, String.toList_append,
    List.append_cancel_left_eq, String.toList_inj] at h
  exact ⟨hentity, labelText_injective h⟩

/-- Plain paths with the same text are one path. -/
theorem Plain.eq_of_render_eq {p q : Path} (hp : p.Plain) (hq : q.Plain)
    (h : p.render = q.render) : p = q := by
  rw [render_eq_iff_pieces_eq, hp.pieces_eq, hq.pieces_eq] at h
  obtain ⟨hroot, hsegments⟩ := List.cons.inj h
  obtain ⟨hentity, hlabel⟩ := eq_of_rootName_eq hp.paren_notMem_entity hq.paren_notMem_entity
    (String.toList_inj.mp hroot)
  have hnames : p.segments = q.segments :=
    List.map_injective_iff.mpr (fun _ _ ↦ String.toList_inj.mp) hsegments
  calc p = ⟨p.entity, p.label, p.segments⟩ := rfl
    _ = ⟨q.entity, q.label, q.segments⟩ := by rw [hentity, hlabel, hnames]
    _ = q := rfl

end Path

/-! ### Faults that name a path -/

/-- The text of the path that a fault names, if it names one. -/
def Fault.path? : Fault → Option String
  | emptyEntityGraph path | duplicateFetch path => some path
  | _ => none

namespace EntityGraph

mutual

/-- The path of an entity and the paths of all that is fetched with it, at any depth. -/
def paths (path : Path) : EntityGraph → List Path
  | ⟨_, _, _, _, fetches⟩ => path :: fetchedPaths path fetches
  termination_by structural graph => graph

/-- The paths of what is fetched at a path, at any depth. -/
def fetchedPaths (path : Path) : List (String × EntityGraph) → List Path
  | [] => []
  | (name, graph) :: rest => graph.paths (path.append name) ++ fetchedPaths path rest
  termination_by structural fetches => fetches

end

theorem mem_paths_self (path : Path) (graph : EntityGraph) : path ∈ graph.paths path := by
  obtain ⟨entity, label, table, attributes, fetches⟩ := graph
  rw [paths]
  exact List.mem_cons_self

mutual

/-- A fault of an entity names the path of the entity or a path under it. -/
theorem exists_path_of_fault? : ∀ (graph : EntityGraph) (path : Path) {fault : Fault},
    graph.fault? path.render = some fault →
    ∃ place ∈ graph.paths path, fault.path? = some place.render
  | ⟨_, _, _, attributes, fetches⟩, path, fault => by
    intro h
    rw [fault?] at h
    rw [paths]
    split at h
    · obtain rfl := Option.some.inj h
      exact ⟨path, List.mem_cons_self, rfl⟩
    · obtain ⟨place, hplace, htext⟩ := exists_path_of_fetchFault? fetches path [] h
      exact ⟨place, List.mem_cons_of_mem path hplace, htext⟩
  termination_by structural graph => graph

theorem exists_path_of_fetchFault? : ∀ (fetches : List (String × EntityGraph)) (path : Path)
    (earlier : List String) {fault : Fault},
    fetchFault? path.render earlier fetches = some fault →
    ∃ place ∈ fetchedPaths path fetches, fault.path? = some place.render
  | [], _, _, _ => by
    intro h
    rw [fetchFault?] at h
    contradiction
  | (name, graph) :: rest, path, earlier, fault => by
    intro h
    rw [fetchFault?, ← path.render_append] at h
    rw [fetchedPaths]
    split at h
    · -- The name that comes again is fetched here too, at the path that the fault names.
      obtain rfl := Option.some.inj h
      exact ⟨path.append name, List.mem_append_left _ (graph.mem_paths_self _), rfl⟩
    · obtain hgraph | ⟨-, hrest⟩ := Option.or_eq_some_iff.mp h
      · obtain ⟨place, hplace, htext⟩ := exists_path_of_fault? graph (path.append name) hgraph
        exact ⟨place, List.mem_append_left _ hplace, htext⟩
      · obtain ⟨place, hplace, htext⟩ :=
          exists_path_of_fetchFault? rest path (earlier ++ [name]) hrest
        exact ⟨place, List.mem_append_right _ hplace, htext⟩
  termination_by structural fetches => fetches

end

end EntityGraph

mutual

/-- The paths of the entities that a query reads, in its own block and in nested queries. -/
def Query.paths : Query → List Path
  | ⟨selections, _⟩ => QueryItem.pathsAll selections
  termination_by structural query => query

/-- The paths of the entities that a selected thing reads. -/
def QueryItem.paths : QueryItem → List Path
  | .scalar _ _ _ => []
  | .entity graph => graph.paths (.root graph.entity graph.label)
  | .subquery query _ => query.paths
  termination_by structural item => item

/-- The paths of the entities that selected things read. -/
def QueryItem.pathsAll : List QueryItem → List Path
  | [] => []
  | item :: rest => item.paths ++ QueryItem.pathsAll rest
  termination_by structural items => items

end

variable {shares : Bool} {naming : Naming} {fault : Fault} {text : String}

theorem path?_of_arityFault? {width : Nat} (h : arityFault? width = some fault) :
    fault.path? = none := by
  rw [arityFault?] at h
  split at h
  · obtain rfl := Option.some.inj h
    rfl
  · contradiction

mutual

/-- If the first fault of a query names a path, it is one of the query. -/
theorem Query.exists_path_of_fault? : ∀ (query : Query) {seen : List Column},
    query.fault? shares naming seen = some fault → fault.path? = some text →
    ∃ path ∈ query.paths, path.render = text
  | ⟨selections, _⟩, seen => by
    intro h htext
    rw [Query.fault?] at h
    rw [Query.paths]
    split at h
    · obtain rfl := Option.some.inj h
      contradiction
    · exact QueryItem.exists_path_of_faultAll? selections h htext
  termination_by structural query => query

theorem QueryItem.exists_path_of_fault? : ∀ (item : QueryItem) {seen : List Column},
    item.fault? shares naming seen = some fault → fault.path? = some text →
    ∃ path ∈ item.paths, path.render = text
  | .scalar _ _ _, seen => by
    intro h
    rw [QueryItem.fault?] at h
    contradiction
  | .entity graph, seen => by
    intro h htext
    rw [QueryItem.fault?, ← graph.render_path_rootNode] at h
    rw [QueryItem.paths]
    obtain ⟨path, hpath, hrender⟩ := graph.exists_path_of_fault? _ h
    exact ⟨path, hpath, Option.some.inj (hrender.symm.trans htext)⟩
  | .subquery query _, seen => by
    intro h htext
    rw [QueryItem.fault?] at h
    rw [QueryItem.paths]
    obtain hquery | ⟨-, harity⟩ := Option.or_eq_some_iff.mp h
    · exact query.exists_path_of_fault? hquery htext
    · rw [path?_of_arityFault? harity] at htext
      contradiction
  termination_by structural item => item

theorem QueryItem.exists_path_of_faultAll? : ∀ (items : List QueryItem) {seen : List Column},
    QueryItem.faultAll? shares naming seen items = some fault → fault.path? = some text →
    ∃ path ∈ QueryItem.pathsAll items, path.render = text
  | [], seen => by
    intro h
    rw [QueryItem.faultAll?] at h
    contradiction
  | item :: rest, seen => by
    intro h htext
    rw [QueryItem.faultAll?] at h
    rw [QueryItem.pathsAll]
    obtain hitem | ⟨-, hrest⟩ := Option.or_eq_some_iff.mp h
    · obtain ⟨path, hpath, hrender⟩ := item.exists_path_of_fault? hitem htext
      exact ⟨path, List.mem_append_left _ hpath, hrender⟩
    · obtain ⟨path, hpath, hrender⟩ := QueryItem.exists_path_of_faultAll? rest hrest htext
      exact ⟨path, List.mem_append_right _ hpath, hrender⟩
  termination_by structural items => items

end

/-- A path that is named when a query is refused is the path of an entity of the query. If all of
these are plain, no other has that text. -/
theorem Query.path_told_by_fault {config : Config} {query : Query}
    (h : lower config query = .error (.fault fault)) (htext : fault.path? = some text) :
    ∃ path ∈ query.paths, path.render = text ∧
      ((∀ other ∈ query.paths, other.Plain) →
        ∀ other ∈ query.paths, other.render = text → other = path) := by
  obtain ⟨found, hfault, hfound⟩ := Option.map_eq_some_iff.mp ((lower_eq_error_iff _ _ _).mp h)
  obtain rfl := Failure.fault.inj hfound
  obtain ⟨path, hpath, hrender⟩ := query.exists_path_of_fault? hfault htext
  refine ⟨path, hpath, hrender, fun hplain other hother hsame ↦ ?_⟩
  exact (hplain other hother).eq_of_render_eq (hplain path hpath) (hsame.trans hrender.symm)

namespace Path

/-- What the text of a path tells. Any two paths have the same text just when they have the same
pieces between dots. For paths without dots and parentheses of their own that means that they are
the same. So the path in a fault is the path of one entity of the query alone, if the paths of the
query are of that kind. -/
theorem render_tells_path (p q : Path) (config : Config) (query : Query) :
    (p.render = q.render ↔ p.pieces = q.pieces) ∧
    (p.Plain → q.Plain → (p = q ↔ p.render = q.render)) ∧
    ∀ fault text, lower config query = .error (.fault fault) → fault.path? = some text →
      ∃ path ∈ query.paths, path.render = text ∧
        ((∀ other ∈ query.paths, other.Plain) →
          ∀ other ∈ query.paths, other.render = text → other = path) := by
  refine ⟨render_eq_iff_pieces_eq p q, fun hp hq ↦ ?_, fun fault text ↦ ?_⟩
  · constructor
    · intro h
      rw [h]
    · exact hp.eq_of_render_eq hq
  · exact Query.path_told_by_fault

/-- A person with an address that maps nothing. -/
def withoutCity : EntityGraph :=
  ⟨"Person", none, ⟨"person", "p1_0"⟩, [⟨"name", "name", .string, false⟩],
    [("address", ⟨"Address", none, ⟨"address", "a1_0"⟩, [], []⟩)]⟩

/-- The fault of the address tells where it is. -/
theorem render_tells_address :
    let address : Path := (root "Person" none).append "address"
    let query : Query := ⟨[.entity withoutCity], []⟩
    lower .flat query = .error (.fault (.emptyEntityGraph "Person.address")) ∧
      ∀ other ∈ query.paths, other.render = "Person.address" → other = address := by
  intro address query
  have hlower : lower .flat query = .error (.fault (.emptyEntityGraph "Person.address")) := rfl
  have hpaths : query.paths = [root "Person" none, address] := rfl
  have hplain : ∀ other ∈ query.paths, other.Plain := by
    intro other hother
    rw [hpaths, List.mem_pair] at hother
    obtain rfl | rfl := hother <;> exact ⟨by decide, by decide, by decide, by decide⟩
  obtain ⟨-, -, htold⟩ := render_tells_path address address .flat query
  obtain ⟨path, -, -, honly⟩ := htold _ "Person.address" hlower rfl
  have haddress : address = path := by
    refine honly hplain address ?_ (by decide)
    rw [hpaths]
    exact List.mem_pair.mpr (.inr rfl)
  rw [haddress]
  exact ⟨hlower, honly hplain⟩

/-- A query of that person, and of an entity that has the text of the address for a name. -/
def dottedEntity : Query :=
  ⟨[.entity ⟨"Person.address", none, ⟨"address", "a2_0"⟩, [⟨"city", "city", .string, false⟩], []⟩,
    .entity withoutCity], []⟩

/-- One text of two paths, for a dot in the name of an entity and for parentheses in it. The fault
of the address could just as well be one of the other entity. -/
theorem text_of_two_paths :
    let entity : Path := root "Person.address" none
    let address : Path := (root "Person" none).append "address"
    entity ≠ address ∧ entity.render = address.render ∧
      root "Person(p)" none ≠ root "Person" (some "p") ∧
      (root "Person(p)" none).render = (root "Person" (some "p")).render ∧
      entity ∈ dottedEntity.paths ∧ address ∈ dottedEntity.paths ∧
      lower .flat dottedEntity = .error (.fault (.emptyEntityGraph address.render)) := by
  intro entity address
  have hpaths : dottedEntity.paths = [entity, root "Person" none, address] := rfl
  have hentity : entity ∈ dottedEntity.paths := by
    rw [hpaths]
    exact List.mem_cons_self
  have haddress : address ∈ dottedEntity.paths := by
    rw [hpaths]
    simp
  exact ⟨by decide, by decide, by decide, by decide, hentity, haddress, rfl⟩

end Path

end ObjectSelect
