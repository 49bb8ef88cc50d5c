import CollabIDE.Lib.Forest
/-!
# Trees of files

The `TreeNode`s the server sends and the client keeps, and `flattenTree`, which
lists them with every parent before its children.  The strings and the instants
are parameters: `Date`s on the server are their JSON in the client, and what is
searched in are UTF-16 units.
-/

namespace CollabIDE.Files.Nodes

/-- The `FILE_FIELDS` of a row. -/
structure FileRecord (τ δ : Type) where
  id : τ
  path : τ
  isDir : Bool
  createdAt : δ
  updatedAt : δ
  deriving DecidableEq

/-- A `TreeNode` without its children. -/
structure Node (τ δ : Type) extends FileRecord τ δ where
  name : τ
  deriving DecidableEq

abbrev TreeNode (τ δ : Type) := Lib.Forest.Tree (Node τ δ)

structure FlatNode (τ δ : Type) where
  id : τ
  path : τ
  name : τ
  isDir : Bool
  updatedAt : δ
  deriving DecidableEq

variable {τ δ : Type}

def flatOf (node : Node τ δ) : FlatNode τ δ :=
  ⟨node.id, node.path, node.name, node.isDir, node.updatedAt⟩

mutual

/-- One round of the loop of `walk`. -/
def walkNode : TreeNode τ δ → List (FlatNode τ δ)
  | .node node children => flatOf node :: walk children

def walk : List (TreeNode τ δ) → List (FlatNode τ δ)
  | [] => []
  | node :: nodes => walkNode node ++ walk nodes

end

def flattenTree : Option (List (TreeNode τ δ)) → List (FlatNode τ δ)
  | some tree => walk tree
  | none => []

mutual

theorem walkNode_eq : ∀ t : TreeNode τ δ, walkNode t = t.preorder.map flatOf
  | .node node children => by
    rw [walkNode, Lib.Forest.Tree.preorder, List.map_cons, walk_eq children]

theorem walk_eq : ∀ ts : List (TreeNode τ δ), walk ts = (Lib.Forest.Tree.preorderAll ts).map flatOf
  | [] => rfl
  | t :: ts => by
    rw [walk, Lib.Forest.Tree.preorderAll, List.map_append, walkNode_eq t, walk_eq ts]

end

end CollabIDE.Files.Nodes
