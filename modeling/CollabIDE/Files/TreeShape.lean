import CollabIDE.Files.TreeView
/-!
# The shape of the tree

From rows of distinct paths, whatever they are, `buildTree` makes a forest with
every row in it once: below the row its path names as parent, or among the
roots if there is none, and sorted among its siblings.  `flattenTree` lists all
of it with every parent before its children.
-/

namespace CollabIDE.Files.TreeShape

open CollabIDE.Files.Nodes (FlatNode flatOf flattenTree walk_eq)
open CollabIDE.Files.Paths CollabIDE.Files.TreeView CollabIDE.Lib.Forest

/-! ## Siblings in order -/

section Siblings

variable {localeCompare : String → String → Int}

/-- Directories come before files, and those of a kind are ordered by their names. -/
def Sorted (localeCompare : String → String → Int) (siblings : List Node) : Prop :=
  siblings.Pairwise fun a b =>
    (b.isDir = true → a.isDir = true) ∧ (a.isDir = b.isDir → localeCompare a.name b.name ≤ 0)

theorem compareNodes_le_iff {a b : Node} :
    compareNodes localeCompare a b ≤ 0 ↔
      (b.isDir = true → a.isDir = true) ∧
        (a.isDir = b.isDir → localeCompare a.name b.name ≤ 0) := by
  unfold compareNodes
  cases a.isDir <;> cases b.isDir <;> simp

variable (htotal : ∀ a b, localeCompare a b ≤ 0 ∨ localeCompare b a ≤ 0)
variable (htrans : ∀ a b c, localeCompare a b ≤ 0 → localeCompare b c ≤ 0 → localeCompare a c ≤ 0)

include htotal htrans in
theorem sorted_sort (siblings : List Node) :
    Sorted localeCompare (sort localeCompare siblings) := by
  have htotal' : Std.Total fun a b : Node => compareNodes localeCompare a b ≤ 0 := by
    refine ⟨fun a b => ?_⟩
    rw [compareNodes_le_iff, compareNodes_le_iff]
    have hnames := htotal a.name b.name
    cases a.isDir <;> cases b.isDir <;> simp [hnames]
  have htrans' : IsTrans Node fun a b => compareNodes localeCompare a b ≤ 0 := by
    refine ⟨fun a b c hab hbc => ?_⟩
    rw [compareNodes_le_iff] at hab hbc ⊢
    have hnames := htrans a.name b.name c.name
    cases ha : a.isDir <;> cases hb : b.isDir <;> cases hc : c.isDir <;>
      simp_all
  exact (List.pairwise_insertionSort _ siblings).imp compareNodes_le_iff.mp

end Siblings

/-! ## The forest -/

section Shape

variable {localeCompare : String → String → Int} {rows : List FileRecord}

/-- The rows as nodes of a forest: each once, with its fields; a root if no row has its parent's
path, otherwise below that row; and the siblings in order. -/
structure Nested (localeCompare : String → String → Int) (rows : List FileRecord)
    (forest : List TreeNode) : Prop where
  once : ((Lib.Forest.Tree.entriesAll [] forest).map fun e => e.2.value).Perm (rows.map nodeOf)
  root : ∀ b, b ∈ forest.map Lib.Forest.Tree.value ↔
    b ∈ rows.map nodeOf ∧ ¬ ∃ a ∈ rows, parentPath b.path = some a.path
  child : ∀ e ∈ Lib.Forest.Tree.entriesAll [] forest, ∀ b,
    b ∈ e.2.subtrees.map Lib.Forest.Tree.value ↔
      b ∈ rows.map nodeOf ∧ parentPath b.path = some e.2.value.path
  sorted_roots : Sorted localeCompare (forest.map Lib.Forest.Tree.value)
  sorted_children : ∀ e ∈ Lib.Forest.Tree.entriesAll [] forest,
    Sorted localeCompare (e.2.subtrees.map Lib.Forest.Tree.value)

/-- The rows in a list: each once, and behind the row of its parent's path. -/
structure Listed (rows : List FileRecord) (l : List (FlatNode String Nat)) : Prop where
  once : l.Perm (rows.map fun row => flatOf (nodeOf row))
  parent_first : ∀ front b back, l = front ++ b :: back → ∀ a ∈ rows,
    parentPath b.path = some a.path → flatOf (nodeOf a) ∈ front

variable (hpaths : (rows.map fun row => row.path).Nodup)

include hpaths in
theorem nodup_paths : ((rows.map nodeOf).map fun node => node.path).Nodup := by
  rwa [List.map_map]

theorem parentOf_eq_none (hnodes : ((rows.map nodeOf).map fun node => node.path).Nodup)
    {b : Node} :
    parentOf (rows.map nodeOf) b = none ↔ ¬ ∃ a ∈ rows, parentPath b.path = some a.path := by
  rw [Option.eq_none_iff_forall_ne_some]
  constructor
  · rintro h ⟨a, ha, hparent⟩
    exact h (nodeOf a) ((parentOf_eq_some hnodes).mpr ⟨List.mem_map_of_mem ha, hparent⟩)
  · intro h a hparent
    obtain ⟨hmem, hpath⟩ := (parentOf_eq_some hnodes).mp hparent
    obtain ⟨row, hrow, rfl⟩ := List.mem_map.mp hmem
    exact h ⟨row, hrow, hpath⟩

theorem map_value_treesOf (localeCompare : String → String → Int) (nodes : List Node) :
    (treesOf localeCompare nodes).map Lib.Forest.Tree.value =
      sort localeCompare (arraysOf nodes).roots := by
  rw [treesOf, List.map_map]
  exact (List.map_congr_left fun node _ => value_grow _ _ node).trans (List.map_id _)

theorem mem_value_treesOf {nodes : List Node} {b : Node} :
    b ∈ (treesOf localeCompare nodes).map Lib.Forest.Tree.value ↔
      b ∈ nodes ∧ parentOf nodes b = none := by
  rw [map_value_treesOf, (sort_perm _).mem_iff, mem_roots]

/-- The values of the forest are the nodes, each once. -/
theorem preorderAll_treesOf (localeCompare : String → String → Int) {nodes : List Node}
    (hnodes : (nodes.map fun node => node.path).Nodup) :
    (Lib.Forest.Tree.preorderAll (treesOf localeCompare nodes)).Perm nodes := by
  have hgrown : ∀ t ∈ treesOf localeCompare nodes,
      Grown (childrenOf localeCompare nodes) t ∧ t.value ∈ nodes := fun t => grown_treesOf hnodes
  have hnodup : (Lib.Forest.Tree.preorderAll (treesOf localeCompare nodes)).Nodup := by
    refine (arborescent hnodes).nodup_preorderAll (fun t ht => (hgrown t ht).1)
      (fun t ht => (hgrown t ht).2) (fun t ht a ha hchild => ?_) ?_
    · have hroot := (mem_value_treesOf.mp (List.mem_map_of_mem ht)).2
      rw [(parentOf_eq_some hnodes).mpr ⟨ha, ((mem_childrenOf hnodes ha).mp hchild).2⟩] at hroot
      cases hroot
    · rw [map_value_treesOf, (sort_perm _).nodup_iff, arraysOf, foldl_push_roots, List.nil_append]
      exact (List.Nodup.of_map _ hnodes).filter _
  refine (List.perm_ext_iff_of_nodup hnodup (List.Nodup.of_map _ hnodes)).mpr fun b => ?_
  refine ⟨fun hb => ?_, mem_treesOf localeCompare hnodes⟩
  obtain ⟨t, ht, hb⟩ := Lib.Forest.Tree.mem_preorderAll.mp hb
  exact (arborescent hnodes).mem_of_reaches (hgrown t ht).2 ((mem_preorder (hgrown t ht).1).mp hb)

theorem subtrees_treesOf {nodes : List Node} (hnodes : (nodes.map fun node => node.path).Nodup)
    {e : List Node × TreeNode}
    (he : e ∈ Lib.Forest.Tree.entriesAll [] (treesOf localeCompare nodes)) :
    e.2.value ∈ nodes ∧
      e.2.subtrees.map Lib.Forest.Tree.value = childrenOf localeCompare nodes e.2.value := by
  have hmem : e.2.value ∈ Lib.Forest.Tree.preorderAll (treesOf localeCompare nodes) := by
    rw [← Lib.Forest.Tree.map_value_entriesAll []]
    exact List.mem_map_of_mem he
  obtain ⟨t, ht, he⟩ := Lib.Forest.Tree.mem_entriesAll.mp he
  exact ⟨(preorderAll_treesOf localeCompare hnodes).mem_iff.mp hmem,
    ((grown_treesOf hnodes ht).1.of_mem_entries he).subtrees⟩

variable (htotal : ∀ a b, localeCompare a b ≤ 0 ∨ localeCompare b a ≤ 0)
variable (htrans : ∀ a b c, localeCompare a b ≤ 0 → localeCompare b c ≤ 0 → localeCompare a c ≤ 0)

include hpaths htotal htrans in
theorem nested_buildTree : Nested localeCompare rows (buildTree localeCompare rows) := by
  have hnodes := nodup_paths hpaths
  rw [buildTree, nodesOf_eq hpaths]
  refine ⟨?_, fun b => ?_, fun e he b => ?_, ?_, fun e he => ?_⟩
  · rw [Lib.Forest.Tree.map_value_entriesAll]
    exact preorderAll_treesOf localeCompare hnodes
  · rw [mem_value_treesOf, parentOf_eq_none hnodes]
  · obtain ⟨hvalue, hsubtrees⟩ := subtrees_treesOf hnodes he
    rw [hsubtrees, mem_childrenOf hnodes hvalue]
  · rw [map_value_treesOf]
    exact sorted_sort htotal htrans _
  · rw [(subtrees_treesOf hnodes he).2]
    exact sorted_sort htotal htrans _

include hpaths in
theorem listed_flattenTree :
    Listed rows (flattenTree (some (buildTree localeCompare rows))) := by
  have hnodes := nodup_paths hpaths
  rw [buildTree, nodesOf_eq hpaths, flattenTree, walk_eq]
  refine ⟨?_, fun front b back hsplit a ha hparent => ?_⟩
  · have hperm := (preorderAll_treesOf localeCompare hnodes).map flatOf
    rwa [List.map_map] at hperm
  · obtain ⟨before, rest, hpreorder, rfl, hrest⟩ := List.map_eq_append_iff.mp hsplit
    obtain ⟨node, after, rfl, rfl, -⟩ := List.map_eq_cons_iff.mp hrest
    obtain ⟨t, ht, before', after', heq, hbefore⟩ := Lib.Forest.Tree.preorderAll_eq_append hpreorder
    have ha' : nodeOf a ∈ rows.map nodeOf := List.mem_map_of_mem ha
    have hparent' : parentOf (rows.map nodeOf) node = some (nodeOf a) :=
      (parentOf_eq_some hnodes).mpr ⟨ha', hparent⟩
    rcases (grown_treesOf hnodes ht).1.exists_before heq with rfl | ⟨c, hc, hchild⟩
    · have hroot := (mem_value_treesOf.mp (List.mem_map_of_mem ht)).2
      rw [hparent'] at hroot
      cases hroot
    · have hcmem : c ∈ rows.map nodeOf := by
        refine (preorderAll_treesOf localeCompare hnodes).mem_iff.mp ?_
        rw [hpreorder]
        exact List.mem_append_left _ (hbefore c hc)
      have hpath := ((mem_childrenOf hnodes hcmem).mp hchild).2
      rw [(parentOf_eq_some hnodes).mpr ⟨hcmem, hpath⟩] at hparent'
      rw [← Option.some.inj hparent']
      exact List.mem_map_of_mem (hbefore c hc)

variable (localeCompare rows) in
include hpaths htotal htrans in
/-- The tree of rows of distinct paths, and its list. -/
theorem buildTree_nested :
    Nested localeCompare rows (buildTree localeCompare rows) ∧
      Listed rows (flattenTree (some (buildTree localeCompare rows))) :=
  ⟨nested_buildTree hpaths htotal htrans, listed_flattenTree hpaths⟩

end Shape

/-- Below a file, below nothing and in a directory, in no order. -/
theorem buildTree_nested_four :
    let rows : List FileRecord := [⟨"1", "x/b", false, 0, 0⟩, ⟨"2", "a/b", true, 0, 0⟩,
      ⟨"3", "a", false, 0, 0⟩, ⟨"4", "d", true, 0, 0⟩]
    Nested (fun a b => a.length - b.length) rows (buildTree (fun a b => a.length - b.length) rows) ∧
      (flattenTree (some (buildTree (fun a b => a.length - b.length) rows))).map FlatNode.path =
        ["d", "x/b", "a", "a/b"] := by
  intro rows
  have hnested := buildTree_nested (fun a b => a.length - b.length) rows (by decide)
    (fun a b => by omega) (fun a b c => by omega)
  exact ⟨hnested.1, by decide +kernel⟩


end CollabIDE.Files.TreeShape
