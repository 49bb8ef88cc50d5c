import CollabIDE.Files.Nodes
import CollabIDE.Files.Tree
import Mathlib.Data.List.Perm.Subperm
import Mathlib.Data.List.Sort
/-!
# The tree the client holds

`buildTree` nests the flat rows of a project through a map of their paths, and
`subtreeIds` walks the result for the ids a delete takes along.  On rows that
are a tree the walk finds what the service's filter on a prefix finds.
-/

namespace CollabIDE.Files.TreeView

open CollabIDE.Files.FileTable CollabIDE.Files.Nodes CollabIDE.Files.Paths CollabIDE.Files.Service
open CollabIDE.Files.Transaction CollabIDE.Files.Tree CollabIDE.Lib.Forest

abbrev FileRecord := Nodes.FileRecord String Nat

abbrev Node := Nodes.Node String Nat

abbrev TreeNode := Nodes.TreeNode String Nat

def record (row : File) : FileRecord :=
  ⟨row.id, row.path, row.isDir, row.createdAt, row.updatedAt⟩

/-! ## On the server -/

section Server

-- the method of the names, whatever the locale makes of it
variable (localeCompare : String → String → Int)

def compareNodes (a b : Node) : Int :=
  if a.isDir ≠ b.isDir then (if a.isDir then -1 else 1) else localeCompare a.name b.name

/-- `Array.prototype.sort` by `compareNodes`, which is stable. -/
def sort (nodes : List Node) : List Node :=
  nodes.insertionSort fun a b => compareNodes localeCompare a b ≤ 0

/-- `nodes.set(node.path, node)`: a path keeps its place in the map. -/
def set (nodes : List Node) (node : Node) : List Node :=
  if nodes.any fun other => other.path = node.path then
    nodes.map fun other => if other.path = node.path then node else other
  else nodes ++ [node]

def get (nodes : List Node) (path : String) : Option Node :=
  nodes.find? fun node => node.path = path

def parentOf (nodes : List Node) (node : Node) : Option Node :=
  (parentPath node.path).bind (get nodes)

/-- The arrays the second loop fills: `children` of the node at each path, and `roots`. -/
structure Arrays where
  children : String → List Node
  roots : List Node

/-- One round of the second loop. -/
def push (nodes : List Node) (arrays : Arrays) (node : Node) : Arrays :=
  match parentOf nodes node with
  | some parent =>
    { arrays with
      children := Function.update arrays.children parent.path
        (arrays.children parent.path ++ [node]) }
  | none => { arrays with roots := arrays.roots ++ [node] }

def nodeOf (row : FileRecord) : Node := ⟨row, baseName row.path⟩

/-- The map after the first loop. -/
def nodesOf (rows : List FileRecord) : List Node :=
  rows.foldl (fun nodes row => set nodes (nodeOf row)) []

/-- The arrays after the second loop. -/
def arraysOf (nodes : List Node) : Arrays := nodes.foldl (push nodes) ⟨fun _ => [], []⟩

/-- The children of a node after the third loop. -/
def childrenOf (nodes : List Node) (node : Node) : List Node :=
  sort localeCompare ((arraysOf nodes).children node.path)

/-- What `roots` holds at the end.  No branch is longer than the map. -/
def treesOf (nodes : List Node) : List TreeNode :=
  (sort localeCompare (arraysOf nodes).roots).map
    (grow (childrenOf localeCompare nodes) nodes.length)

def buildTree (rows : List FileRecord) : List TreeNode := treesOf localeCompare (nodesOf rows)

def listTree (out : Outside) (t : Table) (projectId : String) : List TreeNode :=
  buildTree localeCompare ((out.order (FileTable.findMany t projectId)).map record)

end Server

/-! ## In the client -/

mutual

/-- One round of the loop of `find`. -/
def findIn (fileId : String) : TreeNode → Option TreeNode
  | .node node children =>
    if node.id = fileId then some (.node node children) else find fileId children

/-- The first node with this id, a node before those under it. -/
def find (fileId : String) : List TreeNode → Option TreeNode
  | [] => none
  | node :: nodes =>
    match findIn fileId node with
    | some found => some found
    | none => find fileId nodes

end

mutual

def collect : TreeNode → List String
  | .node node children => node.id :: collectAll children

/-- `flatMap(collect)`. -/
def collectAll : List TreeNode → List String
  | [] => []
  | node :: nodes => collect node ++ collectAll nodes

end

def subtreeIds (tree : Option (List TreeNode)) (fileId : String) : List String :=
  match tree.bind (find fileId) with
  | some target => collect target
  | none => [fileId]

/-! ## The map and the arrays -/

section Arrays

variable {localeCompare : String → String → Int} {nodes : List Node}

theorem nodesOf_eq {rows : List FileRecord} (h : (rows.map FileRecord.path).Nodup) :
    nodesOf rows = rows.map nodeOf := by
  have hloop : ∀ nodes : List Node,
      (nodes.map (fun node => node.path) ++ rows.map FileRecord.path).Nodup →
        rows.foldl (fun nodes row => set nodes (nodeOf row)) nodes = nodes ++ rows.map nodeOf := by
    clear h
    induction rows with
    | nil => simp
    | cons row rows ih =>
        intro nodes hnodup
        have hnew : set nodes (nodeOf row) = nodes ++ [nodeOf row] := by
          refine if_neg fun hany => ?_
          obtain ⟨other, hother, hpath⟩ := List.any_eq_true.mp hany
          have hdisjoint := List.disjoint_of_nodup_append hnodup
          refine hdisjoint (List.mem_map_of_mem hother) ?_
          rw [of_decide_eq_true hpath]
          exact List.mem_cons_self
        rw [List.foldl_cons, hnew, ih]
        · simp
        · simpa [nodeOf] using hnodup
  exact hloop [] h

/-- Every node goes into one array: that of its parent, or `roots`. -/
theorem foldl_push_children (l : List Node) (arrays : Arrays) (path : String) :
    (l.foldl (push nodes) arrays).children path = arrays.children path ++
      l.filter fun node => (parentOf nodes node).map (fun parent => parent.path) = some path := by
  induction l generalizing arrays with
  | nil => simp
  | cons node l ih =>
      rw [List.foldl_cons, ih]
      cases hparent : parentOf nodes node with
      | none => simp [push, hparent]
      | some parent =>
          by_cases hpath : parent.path = path
          · subst hpath
            simp [push, hparent]
          · simp [push, hparent, hpath, Function.update_of_ne (Ne.symm hpath)]

theorem foldl_push_roots (l : List Node) (arrays : Arrays) :
    (l.foldl (push nodes) arrays).roots = arrays.roots ++
      l.filter fun node => (parentOf nodes node).isNone := by
  induction l generalizing arrays with
  | nil => simp
  | cons node l ih =>
      rw [List.foldl_cons, ih]
      cases hparent : parentOf nodes node <;> simp [push, hparent]

theorem sort_perm (l : List Node) : (sort localeCompare l).Perm l := List.perm_insertionSort _ l

variable (hpaths : (nodes.map fun node => node.path).Nodup)

include hpaths in
theorem get_eq_some {path : String} {node : Node} :
    get nodes path = some node ↔ node ∈ nodes ∧ node.path = path := by
  constructor
  · intro h
    exact ⟨List.mem_of_find?_eq_some h, by simpa using List.find?_some h⟩
  · rintro ⟨hnode, rfl⟩
    have hsome : (get nodes node.path).isSome := by
      rw [get, List.find?_isSome]
      exact ⟨node, hnode, by simp⟩
    obtain ⟨found, hfound⟩ := Option.isSome_iff_exists.mp hsome
    have hpath : found.path = node.path := by simpa using List.find?_some hfound
    rw [hfound, List.inj_on_of_nodup_map hpaths (List.mem_of_find?_eq_some hfound) hnode hpath]

include hpaths in
theorem parentOf_eq_some {a b : Node} :
    parentOf nodes b = some a ↔ a ∈ nodes ∧ parentPath b.path = some a.path := by
  rw [parentOf, Option.bind_eq_some_iff]
  constructor
  · rintro ⟨path, hb, hget⟩
    obtain ⟨ha, rfl⟩ := (get_eq_some hpaths).mp hget
    exact ⟨ha, hb⟩
  · rintro ⟨ha, hb⟩
    exact ⟨a.path, hb, (get_eq_some hpaths).mpr ⟨ha, rfl⟩⟩

include hpaths in
theorem mem_childrenOf {a b : Node} (ha : a ∈ nodes) :
    b ∈ childrenOf localeCompare nodes a ↔ b ∈ nodes ∧ parentPath b.path = some a.path := by
  rw [childrenOf, (sort_perm _).mem_iff, arraysOf, foldl_push_children, List.nil_append,
    List.mem_filter, decide_eq_true_eq]
  refine and_congr_right fun _ => ?_
  constructor
  · intro h
    obtain ⟨parent, hparent, hpath⟩ := Option.map_eq_some_iff.mp h
    rw [((parentOf_eq_some hpaths).mp hparent).2, hpath]
  · intro h
    rw [(parentOf_eq_some hpaths).mpr ⟨ha, h⟩, Option.map_some]

include hpaths in
theorem nodup_childrenOf (a : Node) : (childrenOf localeCompare nodes a).Nodup := by
  rw [childrenOf, (sort_perm _).nodup_iff, arraysOf, foldl_push_children, List.nil_append]
  exact (List.Nodup.of_map _ hpaths).filter _

/-- The nodes below a node. -/
def below (nodes : List Node) (node : Node) : List Node :=
  nodes.filter fun other => isDescendantOf other.path node.path

include hpaths in
theorem arborescent :
    Arborescent (childrenOf localeCompare nodes) (fun node => (below nodes node).length)
      {node | node ∈ nodes} where
  closed ha hb := ((mem_childrenOf hpaths ha).mp hb).1
  descends := by
    intro a b ha hb
    obtain ⟨hbmem, hparent⟩ := (mem_childrenOf hpaths ha).mp hb
    have habove : isDescendantOf b.path a.path = true :=
      (isDescendantOf_iff_parentPath hparent).mpr (.inl rfl)
    -- `b` is below `a` with all that is below it, and not below itself
    have hsubset : b :: below nodes b ⊆ below nodes a := by
      intro c hc
      rcases List.mem_cons.mp hc with rfl | hc
      · exact List.mem_filter.mpr ⟨hbmem, habove⟩
      · obtain ⟨hc, hbelow⟩ := List.mem_filter.mp hc
        exact List.mem_filter.mpr ⟨hc, isDescendantOf_trans hbelow habove⟩
    have hnodup : (b :: below nodes b).Nodup := by
      refine List.nodup_cons.mpr ⟨fun hself => ?_, (List.Nodup.of_map _ hpaths).filter _⟩
      exact not_isDescendantOf_self _ (List.mem_filter.mp hself).2
    exact (List.subperm_of_subset hnodup hsubset).length_le
  nodup _ := nodup_childrenOf hpaths _
  parent := by
    intro a a' b ha ha' hb hb'
    have hpath := ((mem_childrenOf hpaths ha).mp hb).2.symm.trans
      ((mem_childrenOf hpaths ha').mp hb').2
    exact List.inj_on_of_nodup_map hpaths ha ha' (Option.some.inj hpath)

/-- Every path above a node is that of a node. -/
def Rooted (nodes : List Node) : Prop :=
  ∀ node ∈ nodes, ∀ a, isDescendantOf node.path a = true → ∃ above ∈ nodes, above.path = a

/-- What holds of a node once it holds of the nodes above it holds of every node. -/
theorem induction_up {P : Node → Prop}
    (hstep : ∀ b ∈ nodes, (∀ a ∈ nodes, isDescendantOf b.path a.path = true → P a) → P b)
    {b : Node} (hb : b ∈ nodes) : P b := by
  induction hlength : b.path.toList.length using Nat.strong_induction_on generalizing b with
  | _ length ih =>
      refine hstep b hb fun a ha habove => ?_
      have hlt := (isDescendantOf_iff.mp habove).length_lt
      exact ih _ (by omega) ha rfl

include hpaths in
theorem exists_parent (hrooted : Rooted nodes) {b : Node} (hb : b ∈ nodes) {parent : String}
    (hparent : parentPath b.path = some parent) :
    ∃ a ∈ nodes, a.path = parent ∧ isDescendantOf b.path a.path = true ∧
      b ∈ childrenOf localeCompare nodes a := by
  have habove := (isDescendantOf_iff_parentPath hparent).mpr (.inl rfl)
  obtain ⟨a, ha, rfl⟩ := hrooted b hb parent habove
  exact ⟨a, ha, rfl, habove, (mem_childrenOf hpaths ha).mpr ⟨hb, hparent⟩⟩

include hpaths in
/-- What a node reaches is what lies below its path, at any depth. -/
theorem reaches_iff (hrooted : Rooted nodes) {a b : Node} (ha : a ∈ nodes) :
    Reaches (childrenOf localeCompare nodes) a b ↔
      b = a ∨ b ∈ nodes ∧ isDescendantOf b.path a.path = true := by
  constructor
  · intro h
    induction h with
    | refl => exact .inl rfl
    | tail hreach hstep ih =>
        have hmiddle := (arborescent hpaths).mem_of_reaches ha hreach
        obtain ⟨hmem, hparent⟩ := (mem_childrenOf hpaths hmiddle).mp hstep
        refine .inr ⟨hmem, (isDescendantOf_iff_parentPath hparent).mpr ?_⟩
        rcases ih with rfl | ⟨-, hbelow⟩
        · exact .inl rfl
        · exact .inr hbelow
  · rintro (rfl | ⟨hb, hbelow⟩)
    · exact .refl
    revert hbelow
    refine induction_up (P := fun b => isDescendantOf b.path a.path = true →
      Reaches (childrenOf localeCompare nodes) a b) (fun b hb ih hbelow => ?_) hb
    cases hparent : parentPath b.path with
    | none => exact absurd hbelow (parentPath_eq_none hparent)
    | some parent =>
        obtain ⟨c, hc, rfl, habove, hchild⟩ := exists_parent hpaths hrooted hb hparent
        rcases (isDescendantOf_iff_parentPath hparent).mp hbelow with heq | hc'
        · obtain rfl := List.inj_on_of_nodup_map hpaths ha hc heq
          exact .single hchild
        · exact .tail (ih c hc habove hc') hchild

theorem mem_roots {b : Node} :
    b ∈ (arraysOf nodes).roots ↔ b ∈ nodes ∧ parentOf nodes b = none := by
  rw [arraysOf, foldl_push_roots, List.nil_append, List.mem_filter, Option.isNone_iff_eq_none]

variable (localeCompare) in
include hpaths in
theorem exists_root {b : Node} (hb : b ∈ nodes) :
    ∃ root ∈ (arraysOf nodes).roots, root ∈ nodes ∧
      Reaches (childrenOf localeCompare nodes) root b := by
  refine induction_up (P := fun b => ∃ root ∈ (arraysOf nodes).roots, root ∈ nodes ∧
    Reaches (childrenOf localeCompare nodes) root b) (fun b hb ih => ?_) hb
  cases hparent : parentOf nodes b with
  | none => exact ⟨b, mem_roots.mpr ⟨hb, hparent⟩, hb, .refl⟩
  | some a =>
      obtain ⟨ha, hpath⟩ := (parentOf_eq_some hpaths).mp hparent
      have habove := (isDescendantOf_iff_parentPath hpath).mpr (.inl rfl)
      obtain ⟨root, hroot, hmem, hreach⟩ := ih a ha habove
      exact ⟨root, hroot, hmem, .tail hreach ((mem_childrenOf hpaths ha).mpr ⟨hb, hpath⟩)⟩

end Arrays

/-! ## The walk -/

mutual

theorem collect_eq : ∀ t : TreeNode, collect t = t.preorder.map fun node => node.id
  | .node node children => by
    rw [collect, Lib.Forest.Tree.preorder, List.map_cons, collectAll_eq children]

theorem collectAll_eq : ∀ ts : List TreeNode,
    collectAll ts = (Lib.Forest.Tree.preorderAll ts).map fun node => node.id
  | [] => rfl
  | t :: ts => by
    rw [collectAll, Lib.Forest.Tree.preorderAll, List.map_append, collect_eq t, collectAll_eq ts]

end

mutual

theorem findIn_eq_some {children : Node → List Node} {fileId : String} :
    ∀ {t found : TreeNode}, findIn fileId t = some found →
      found.value ∈ t.preorder ∧ found.value.id = fileId ∧
        (Grown children t → Grown children found)
  | .node node ts, found => by
    intro hfound
    rw [findIn] at hfound
    split_ifs at hfound with hid
    · cases hfound
      exact ⟨List.mem_cons_self, hid, id⟩
    · obtain ⟨hmem, hvalue, hgrown⟩ := find_eq_some hfound
      refine ⟨List.mem_cons_of_mem _ hmem, hvalue, fun h => ?_⟩
      cases h with
      | node _ _ _ hts => exact hgrown hts

theorem find_eq_some {children : Node → List Node} {fileId : String} :
    ∀ {ts : List TreeNode} {found : TreeNode}, find fileId ts = some found →
      found.value ∈ Lib.Forest.Tree.preorderAll ts ∧ found.value.id = fileId ∧
        ((∀ t ∈ ts, Grown children t) → Grown children found)
  | [], found => by
    intro hfound
    cases hfound
  | t :: ts, found => by
    intro hfound
    rw [find] at hfound
    cases hfirst : findIn fileId t with
    | some first =>
        rw [hfirst] at hfound
        cases hfound
        obtain ⟨hmem, hvalue, hgrown⟩ := findIn_eq_some hfirst
        exact ⟨List.mem_append_left _ hmem, hvalue, fun h => hgrown (h t List.mem_cons_self)⟩
    | none =>
        rw [hfirst] at hfound
        obtain ⟨hmem, hvalue, hgrown⟩ := find_eq_some hfound
        exact ⟨List.mem_append_right _ hmem, hvalue,
          fun h => hgrown fun t' ht' => h t' (List.mem_cons_of_mem _ ht')⟩

end

mutual

theorem findIn_eq_none {fileId : String} :
    ∀ {t : TreeNode}, findIn fileId t = none → ∀ node ∈ t.preorder, node.id ≠ fileId
  | .node node ts => by
    intro hnone
    rw [findIn] at hnone
    split_ifs at hnone with hid
    exact List.forall_mem_cons.mpr ⟨hid, find_eq_none hnone⟩

theorem find_eq_none {fileId : String} :
    ∀ {ts : List TreeNode}, find fileId ts = none →
      ∀ node ∈ Lib.Forest.Tree.preorderAll ts, node.id ≠ fileId
  | [] => by
    intro _ node hnode
    cases hnode
  | t :: ts => by
    intro hnone
    rw [find] at hnone
    cases hfirst : findIn fileId t with
    | some first =>
        rw [hfirst] at hnone
        cases hnone
    | none =>
        rw [hfirst] at hnone
        exact List.forall_mem_append.mpr ⟨findIn_eq_none hfirst, find_eq_none hnone⟩

end

section Agree

variable (localeCompare : String → String → Int) {nodes : List Node}

theorem grown_treesOf {localeCompare : String → String → Int}
    (hpaths : (nodes.map fun node => node.path).Nodup) {t : TreeNode}
    (ht : t ∈ treesOf localeCompare nodes) :
    Grown (childrenOf localeCompare nodes) t ∧ t.value ∈ nodes := by
  obtain ⟨root, hroot, rfl⟩ := List.mem_map.mp ht
  obtain ⟨hmem, -⟩ := mem_roots.mp ((sort_perm _).mem_iff.mp hroot)
  have hdepth : (below nodes root).length < nodes.length :=
    List.length_filter_lt_length_iff_exists.mpr ⟨root, hmem, not_isDescendantOf_self _⟩
  rw [value_grow]
  exact ⟨(arborescent hpaths).grown_grow hmem hdepth, hmem⟩

theorem mem_treesOf (hpaths : (nodes.map fun node => node.path).Nodup) {node : Node}
    (hnode : node ∈ nodes) :
    node ∈ Lib.Forest.Tree.preorderAll (treesOf localeCompare nodes) := by
  obtain ⟨root, hroot, -, hreach⟩ := exists_root localeCompare hpaths hnode
  have ht : grow (childrenOf localeCompare nodes) nodes.length root ∈ treesOf localeCompare nodes :=
    List.mem_map_of_mem ((sort_perm _).mem_iff.mpr hroot)
  refine Lib.Forest.Tree.mem_preorderAll.mpr
    ⟨_, ht, (mem_preorder (grown_treesOf hpaths ht).1).mpr ?_⟩
  rwa [value_grow]

/-- The walk stops at the node asked for, with everything under it. -/
theorem find_treesOf (hpaths : (nodes.map fun node => node.path).Nodup)
    (hids : (nodes.map fun node => node.id).Nodup) {node : Node} (hnode : node ∈ nodes) :
    ∃ found, find node.id (treesOf localeCompare nodes) = some found ∧ found.value = node ∧
      Grown (childrenOf localeCompare nodes) found := by
  cases hfind : find node.id (treesOf localeCompare nodes) with
  | none =>
      have hmem := mem_treesOf localeCompare hpaths hnode
      exact absurd rfl (find_eq_none hfind node hmem)
  | some found =>
      obtain ⟨hmem, hvalue, hgrown⟩ := find_eq_some hfind
      obtain ⟨t, ht, hreach⟩ := Lib.Forest.Tree.mem_preorderAll.mp hmem
      obtain ⟨htgrown, htmem⟩ := grown_treesOf hpaths ht
      have hfound := (arborescent hpaths).mem_of_reaches htmem
        ((mem_preorder htgrown).mp hreach)
      exact ⟨found, rfl, List.inj_on_of_nodup_map hids hfound hnode hvalue,
        hgrown fun t ht => (grown_treesOf hpaths ht).1⟩

theorem subtreeIds_treesOf (hpaths : (nodes.map fun node => node.path).Nodup)
    (hids : (nodes.map fun node => node.id).Nodup) (hrooted : Rooted nodes) {node : Node}
    (hnode : node ∈ nodes) :
    (subtreeIds (some (treesOf localeCompare nodes)) node.id).Nodup ∧
      ∀ id, id ∈ subtreeIds (some (treesOf localeCompare nodes)) node.id ↔
        ∃ other ∈ nodes, (other = node ∨ isDescendantOf other.path node.path = true) ∧
          other.id = id := by
  obtain ⟨found, hfind, rfl, hgrown⟩ :=
    find_treesOf localeCompare hpaths hids hnode
  have hwalk : subtreeIds (some (treesOf localeCompare nodes)) found.value.id =
      found.preorder.map fun node => node.id := by
    rw [subtreeIds, Option.bind_some, hfind]
    exact collect_eq found
  have hmem : ∀ other, other ∈ found.preorder ↔
      other = found.value ∨ other ∈ nodes ∧ isDescendantOf other.path found.value.path = true :=
    fun other => (mem_preorder hgrown).trans (reaches_iff hpaths hrooted hnode)
  have hnodes : ∀ other ∈ found.preorder, other ∈ nodes := fun other hother =>
    ((hmem other).mp hother).elim (fun heq => heq ▸ hnode) And.left
  rw [hwalk]
  refine ⟨((arborescent hpaths).nodup_preorder hgrown hnode).map_on fun a ha b hb =>
    List.inj_on_of_nodup_map hids (hnodes a ha) (hnodes b hb), fun id => ?_⟩
  rw [List.mem_map]
  constructor
  · rintro ⟨other, hother, rfl⟩
    exact ⟨other, hnodes other hother, ((hmem other).mp hother).imp_right And.right, rfl⟩
  · rintro ⟨other, hother, hbelow, rfl⟩
    exact ⟨other, (hmem other).mpr (hbelow.imp_right fun h => ⟨hother, h⟩), rfl⟩

theorem subtreeIds_buildTree {rows : List FileRecord} (hpaths : (rows.map FileRecord.path).Nodup)
    (hids : (rows.map FileRecord.id).Nodup)
    (hrooted : ∀ row ∈ rows, ∀ a, isDescendantOf row.path a = true → ∃ d ∈ rows, d.path = a)
    {row : FileRecord} (hrow : row ∈ rows) :
    (subtreeIds (some (buildTree localeCompare rows)) row.id).Nodup ∧
      ∀ id, id ∈ subtreeIds (some (buildTree localeCompare rows)) row.id ↔
        ∃ other ∈ rows, (other = row ∨ isDescendantOf other.path row.path = true) ∧
          other.id = id := by
  have hnodes : Rooted (rows.map nodeOf) := by
    intro node hnode a ha
    obtain ⟨r, hr, rfl⟩ := List.mem_map.mp hnode
    obtain ⟨d, hd, hpath⟩ := hrooted r hr a ha
    exact ⟨nodeOf d, List.mem_map_of_mem hd, hpath⟩
  rw [buildTree, nodesOf_eq hpaths]
  obtain ⟨hnodup, hmem⟩ := subtreeIds_treesOf localeCompare
    (by rwa [List.map_map]) (by rwa [List.map_map]) hnodes (List.mem_map_of_mem hrow)
  refine ⟨hnodup, fun id => (hmem id).trans ?_⟩
  constructor
  · rintro ⟨node, hnode, hbelow, rfl⟩
    obtain ⟨other, hother, rfl⟩ := List.mem_map.mp hnode
    exact ⟨other, hother, hbelow.imp_left (congrArg Node.toFileRecord), rfl⟩
  · rintro ⟨other, hother, hbelow, rfl⟩
    exact ⟨nodeOf other, List.mem_map_of_mem hother, hbelow.imp_left (congrArg nodeOf), rfl⟩

end Agree

/-! ## What a delete removes -/

section Rows

variable {out : Outside} {t : Table} {projectId : String}

/-- The row and its descendants, as the service and the client find them. -/
def Removed (t : Table) (file row : File) : Prop :=
  row ∈ t.rows ∧ row.projectId = file.projectId ∧
    (row.id = file.id ∨ isDescendantOf row.path file.path = true)

theorem findFirst_of_mem {file : File} (hfile : file ∈ t.rows) :
    FileTable.findFirst t file.id file.projectId = some file := by
  have hsome : (FileTable.findFirst t file.id file.projectId).isSome := by
    rw [FileTable.findFirst, List.find?_isSome]
    exact ⟨file, hfile, by simp⟩
  obtain ⟨found, hfound⟩ := Option.isSome_iff_exists.mp hsome
  obtain ⟨hmem, hid, -⟩ := findFirst_eq_some hfound
  rw [hfound, Table.eq_of_id hmem hfile hid]

theorem deleteBody_of_mem (out : Outside) {file : File} (hfile : file ∈ t.rows) :
    let deleted := if file.isDir then
        doomed file (out.order (FileTable.findMany t file.projectId)) else [file.id]
    (deleteBody file.projectId file.id).exec out t = .ok (deleted, deleteMany t deleted) := by
  intro deleted
  rw [deleteBody, exec_bind, exec_findFirst, findFirst_of_mem hfile]
  change Tx.exec out (ite _ _ _) t = _
  by_cases hdir : file.isDir = true
  · simp only [deleted, if_pos hdir]
    rfl
  · simp only [deleted, if_neg hdir]
    exact exec_bind_eq_ok.mpr ⟨(), _, exec_delete_eq_ok.mpr
      (delete_eq_ok.mpr ⟨List.mem_map_of_mem hfile, rfl⟩), rfl⟩

/-- On rows that are a tree only a directory has descendants. -/
theorem deleteBody_ids (out : Outside) {file : File} (h : Closed file.projectId t)
    (hfile : file ∈ t.rows) :
    ∃ deleted, (deleteBody file.projectId file.id).exec out t =
        .ok (deleted, deleteMany t deleted) ∧ deleted.Nodup ∧
      ∀ id, id ∈ deleted ↔ ∃ row, Removed t file row ∧ row.id = id := by
  refine ⟨_, deleteBody_of_mem out hfile, ?_, fun id => ?_⟩
  · have hnodup := nodup_moving file (out.order_perm (FileTable.findMany t file.projectId))
    unfold moving at hnodup
    split_ifs at hnodup ⊢
    · exact hnodup
    · exact hnodup
  split_ifs with hdir
  · simp only [doomed, List.mem_map, List.mem_filter, (out.order_perm _).mem_iff, mem_findMany,
      decide_eq_true_eq, Removed, and_assoc]
  · rw [List.mem_singleton]
    constructor
    · rintro rfl
      exact ⟨file, ⟨hfile, rfl, .inl rfl⟩, rfl⟩
    · rintro ⟨row, ⟨hrow, hproject, hself | hbelow⟩, rfl⟩
      · exact hself
      · obtain ⟨d, hd, hdp, hpath, hddir⟩ := h row hrow hproject file.path hbelow
        obtain rfl := Table.eq_of_key hd hfile (Prod.ext hdp hpath)
        exact absurd hddir hdir

theorem subtreeIds_listTree (localeCompare : String → String → Int) (out : Outside) {file : File}
    (h : Closed file.projectId t) (hfile : file ∈ t.rows) :
    let ids := subtreeIds (some (listTree localeCompare out t file.projectId)) file.id
    ids.Nodup ∧ ∀ id, id ∈ ids ↔ ∃ row, Removed t file row ∧ row.id = id := by
  intro ids
  have hperm := out.order_perm (FileTable.findMany t file.projectId)
  generalize hall : out.order (FileTable.findMany t file.projectId) = all at hperm
  have hlisted : ∀ row, row ∈ all ↔ row ∈ t.rows ∧ row.projectId = file.projectId := fun row =>
    hperm.mem_iff.trans mem_findMany
  have hids : (all.map File.id).Nodup :=
    (hperm.map File.id).nodup_iff.mpr (t.ids.sublist (List.filter_sublist.map _))
  have hpaths : (all.map File.path).Nodup := by
    refine (List.Nodup.of_map _ hids).map_on fun a ha b hb hpath => ?_
    obtain ⟨ha, hap⟩ := (hlisted a).mp ha
    obtain ⟨hb, hbp⟩ := (hlisted b).mp hb
    exact Table.eq_of_key ha hb (Prod.ext (hap.trans hbp.symm) hpath)
  have hrooted : ∀ row ∈ all.map record, ∀ a, isDescendantOf row.path a = true →
      ∃ d ∈ all.map record, d.path = a := by
    intro r hr a ha
    obtain ⟨row, hrow, rfl⟩ := List.mem_map.mp hr
    obtain ⟨hrow, hproject⟩ := (hlisted row).mp hrow
    obtain ⟨d, hd, hdp, rfl, -⟩ := h row hrow hproject a ha
    exact ⟨record d, List.mem_map_of_mem ((hlisted d).mpr ⟨hd, hdp⟩), rfl⟩
  obtain ⟨hnodup, hmem⟩ := subtreeIds_buildTree localeCompare
    (by rwa [List.map_map]) (by rwa [List.map_map]) hrooted
    (List.mem_map_of_mem ((hlisted file).mpr ⟨hfile, rfl⟩))
  simp only [ids, listTree, hall]
  refine ⟨hnodup, fun id => (hmem id).trans ?_⟩
  constructor
  · rintro ⟨r, hr, hbelow, rfl⟩
    obtain ⟨row, hrow, rfl⟩ := List.mem_map.mp hr
    obtain ⟨hrow, hproject⟩ := (hlisted row).mp hrow
    exact ⟨row, ⟨hrow, hproject, hbelow.imp_left (congrArg FileRecord.id)⟩, rfl⟩
  · rintro ⟨row, ⟨hrow, hproject, hbelow⟩, rfl⟩
    refine ⟨record row, List.mem_map_of_mem ((hlisted row).mpr ⟨hrow, hproject⟩),
      hbelow.imp_left fun hid => ?_, rfl⟩
    rw [Table.eq_of_id hrow hfile hid]

/-- The client drops the ids the server deletes, whatever row is deleted. -/
theorem subtreeIds_eq_deleted (localeCompare : String → String → Int) (out out' : Outside)
    (cleanup : List String → Except Failure Unit) (h : Closed projectId t) (file : File)
    (hfile : file ∈ t.rows) (hproject : file.projectId = projectId) :
    let ids := subtreeIds (some (listTree localeCompare out t projectId)) file.id
    ids.Nodup ∧
      (∃ deleted u, transaction out' (deleteBody projectId file.id) t = (.ok deleted, u) ∧
        ids.Perm deleted) ∧
      ∀ row ∈ t.rows,
        row ∈ (deleteFile out' cleanup t projectId file.id).2.rows ↔ row.id ∉ ids := by
  subst hproject
  intro ids
  obtain ⟨hnodup, hmem⟩ := subtreeIds_listTree localeCompare out h hfile
  obtain ⟨deleted, hexec, hdeleted, hmem'⟩ := deleteBody_ids out' h hfile
  have htx : transaction out' (deleteBody file.projectId file.id) t =
      (.ok deleted, deleteMany t deleted) := by
    rw [transaction, hexec]
  have hperm : ids.Perm deleted :=
    (List.perm_ext_iff_of_nodup hnodup hdeleted).mpr fun id => (hmem id).trans (hmem' id).symm
  refine ⟨hnodup, ⟨deleted, _, htx, hperm⟩, fun row hrow => ?_⟩
  rw [deleteFile, htx, hperm.mem_iff]
  simp [FileTable.deleteMany, hrow]

/-- A directory with a file in it, beside one whose name it starts. -/
theorem subtreeIds_eq_deleted_src :
    let ids := subtreeIds (some (listTree (fun _ _ => 0) plainOutside srcTable "p")) "d"
    ids = ["d", "m"] ∧ ∀ row ∈ srcTable.rows,
      row ∈ (deleteFile plainOutside (fun _ => .ok ()) srcTable "p" "d").2.rows ↔ row.id ∉ ids := by
  have hclosed : Closed "p" srcTable := by decide +kernel
  have hagree := subtreeIds_eq_deleted (fun _ _ => 0) plainOutside plainOutside (fun _ => .ok ())
    hclosed ⟨"d", "p", "src", "", true, 0, 0⟩ (by decide) rfl
  exact ⟨by decide +kernel, hagree.2.2⟩

end Rows

end CollabIDE.Files.TreeView
