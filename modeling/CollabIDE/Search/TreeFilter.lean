import CollabIDE.Search.Match
/-!
# What a tree filter keeps

A node is kept if its name matches, if the name of a directory above it does,
or if it is a directory and a name below it does.  The nodes that are kept are
those of the filtered tree, in their order and below the same directories.
-/

namespace CollabIDE.Search.TreeFilter

open CollabIDE.Lib.Forest CollabIDE.Search.Match CollabIDE.Search.Strings

variable (C : Casing) {trimmed : Text} {above : List Node} {t : TreeNode} {ts : List TreeNode}
variable {e : List Node × TreeNode}

/-! ## What is kept -/

def Matches (trimmed : Text) (node : Node) : Prop :=
  (matchPath C node.name trimmed).isSome = true

instance (trimmed : Text) (node : Node) : Decidable (Matches C trimmed node) :=
  inferInstanceAs (Decidable (_ = true))

/-- A node with the directories above it is kept for its own name, for one above or for one
below. -/
def Kept (trimmed : Text) : List Node × TreeNode → Prop
  | (above, .node node nodes) =>
    Matches C trimmed node ∨ (∃ dir ∈ above, dir.isDir = true ∧ Matches C trimmed dir) ∨
      node.isDir = true ∧ ∃ below ∈ Tree.preorderAll nodes, Matches C trimmed below

instance (trimmed : Text) : DecidablePred (Kept C trimmed)
  | (above, .node node nodes) => by unfold Kept; infer_instance

/-- Only directories have children. -/
inductive OnlyDirs : TreeNode → Prop
  | node (node : Node) (nodes : List TreeNode) (hfile : node.isDir = false → nodes = [])
      (hnodes : ∀ t ∈ nodes, OnlyDirs t) : OnlyDirs (.node node nodes)

/-- A node as it is listed: what is above it, and its fields. -/
def listed (e : List Node × TreeNode) : List Node × Node := (e.1, e.2.value)

/-! ## One node -/

variable {C} {node : Node} {nodes : List TreeNode}

theorem walk_eq_flatMap (ts : List TreeNode) :
    walk C trimmed ts = ts.flatMap (walkNode C trimmed) := by
  induction ts with
  | nil => rw [walk]; rfl
  | cons t ts ih => rw [walk, ih, List.flatMap_cons]

theorem walkNode_of_matches (h : Matches C trimmed node) :
    walkNode C trimmed (.node node nodes) = [.node node nodes] := by
  have h' : (matchPath C node.name trimmed).isSome = true := h
  rw [walkNode]
  simp [h']

theorem walkNode_of_not_matches (h : ¬ Matches C trimmed node) :
    walkNode C trimmed (.node node nodes) =
      if node.isDir = true ∧ walk C trimmed nodes ≠ [] then [.node node (walk C trimmed nodes)]
      else [] := by
  have h' : (matchPath C node.name trimmed).isSome = false := Bool.eq_false_iff.mpr h
  rw [walkNode]
  simp only [h', Bool.false_eq_true, if_false, List.length_pos_iff]
  by_cases hdir : node.isDir = true <;> simp [hdir]

theorem walk_eq_nil_iff (h : ∀ t ∈ ts,
    (walkNode C trimmed t = [] ↔ ∀ below ∈ t.preorder, ¬ Matches C trimmed below)) :
    walk C trimmed ts = [] ↔ ∀ below ∈ Tree.preorderAll ts, ¬ Matches C trimmed below := by
  rw [walk_eq_flatMap, List.flatMap_eq_nil_iff]
  constructor
  · intro hnil below hbelow
    obtain ⟨t, ht, hbelow⟩ := Tree.mem_preorderAll.mp hbelow
    exact (h t ht).mp (hnil t ht) below hbelow
  · exact fun hnot t ht => (h t ht).mpr fun below hbelow =>
      hnot below (Tree.mem_preorderAll.mpr ⟨t, ht, hbelow⟩)

theorem walkNode_eq_nil_iff (h : OnlyDirs t) :
    walkNode C trimmed t = [] ↔ ∀ below ∈ t.preorder, ¬ Matches C trimmed below := by
  induction h with
  | node node nodes hfile _ ih =>
      by_cases hself : Matches C trimmed node
      · rw [walkNode_of_matches hself]
        exact iff_of_false (List.cons_ne_nil _ _) fun h => h node List.mem_cons_self hself
      rw [walkNode_of_not_matches hself, Tree.preorder, List.forall_mem_cons, and_iff_right hself,
        ← walk_eq_nil_iff ih]
      cases hdir : node.isDir with
      | false =>
          rw [hfile hdir, walk]
          simp
      | true => simp

theorem kept_of_above {dir : Node} (hdir : dir ∈ e.1) (hisDir : dir.isDir = true)
    (hmatches : Matches C trimmed dir) : Kept C trimmed e := by
  obtain ⟨above, node, nodes⟩ := e
  exact .inr (.inl ⟨dir, hdir, hisDir, hmatches⟩)

/-- What is left of a tree below directories that do not match is what is kept of it. -/
theorem listed_walkNode (h : OnlyDirs t) (habove : ∀ dir ∈ above, ¬ Matches C trimmed dir) :
    (Tree.entriesAll above (walkNode C trimmed t)).map listed =
      ((t.entries above).filter (Kept C trimmed ·)).map listed := by
  induction h generalizing above with
  | node node nodes hfile hnodes ih =>
      have hroot : Kept C trimmed (above, .node node nodes) ↔ Matches C trimmed node ∨
          node.isDir = true ∧ ∃ below ∈ Tree.preorderAll nodes, Matches C trimmed below := by
        refine or_congr_right (or_iff_right ?_)
        rintro ⟨dir, hdir, -, hmatches⟩
        exact habove dir hdir hmatches
      by_cases hself : Matches C trimmed node
      · have hall : ∀ e ∈ (Lib.Forest.Tree.node node nodes).entries above, Kept C trimmed e := by
          intro e he
          rw [Tree.entries, List.mem_cons] at he
          rcases he with rfl | he
          · exact hroot.mpr (.inl hself)
          cases hdir : node.isDir with
          | false =>
              rw [hfile hdir] at he
              cases he
          | true =>
              obtain ⟨t, ht, he⟩ := Tree.mem_entriesAll.mp he
              exact kept_of_above (Tree.mem_of_mem_entries he List.mem_cons_self) hdir hself
        rw [walkNode_of_matches hself, List.filter_eq_self.mpr (by simpa using hall)]
        simp [Tree.entriesAll]
      have hbelow : ∀ dir ∈ node :: above, ¬ Matches C trimmed dir :=
        List.forall_mem_cons.mpr ⟨hself, habove⟩
      -- what is left of the children
      have hchildren : (Tree.entriesAll (node :: above) (walk C trimmed nodes)).map listed =
          ((Tree.entriesAll (node :: above) nodes).filter (Kept C trimmed ·)).map listed := by
        rw [walk_eq_flatMap, Tree.entriesAll_eq_flatMap, Tree.entriesAll_eq_flatMap,
          List.flatMap_assoc, List.map_flatMap, List.filter_flatMap, List.map_flatMap]
        refine List.flatMap_congr fun t ht => ?_
        rw [← ih t ht hbelow, Tree.entriesAll_eq_flatMap]
      have hnil : walk C trimmed nodes = [] ↔
          ∀ below ∈ Tree.preorderAll nodes, ¬ Matches C trimmed below :=
        walk_eq_nil_iff fun t ht => walkNode_eq_nil_iff (hnodes t ht)
      have hkept : Kept C trimmed (above, .node node nodes) ↔
          node.isDir = true ∧ walk C trimmed nodes ≠ [] := by
        rw [hroot, or_iff_right hself, ne_eq, hnil]
        push Not
        exact Iff.rfl
      rw [walkNode_of_not_matches hself, Tree.entries]
      by_cases hleft : node.isDir = true ∧ walk C trimmed nodes ≠ []
      · rw [if_pos hleft, List.filter_cons_of_pos (by simpa using hkept.mpr hleft), List.map_cons,
          ← hchildren]
        simp [Tree.entriesAll, Tree.entries, listed, Tree.value]
      · rw [if_neg hleft, List.filter_cons_of_neg (by simpa using hkept.not.mpr hleft),
          ← hchildren]
        have hempty : walk C trimmed nodes = [] := by
          by_contra hne
          refine hleft ⟨?_, hne⟩
          by_contra hfile'
          exact hne (by rw [hfile (Bool.eq_false_iff.mpr hfile'), walk])
        rw [hempty]
        rfl

/-! ## Whole forests -/

theorem listed_walk (h : ∀ t ∈ ts, OnlyDirs t) :
    (Tree.entriesAll [] (walk C trimmed ts)).map listed =
      ((Tree.entriesAll [] ts).filter (Kept C trimmed ·)).map listed := by
  rw [walk_eq_flatMap, Tree.entriesAll_eq_flatMap, Tree.entriesAll_eq_flatMap, List.flatMap_assoc,
    List.map_flatMap, List.filter_flatMap, List.map_flatMap]
  refine List.flatMap_congr fun t ht => ?_
  rw [← listed_walkNode (h t ht) (List.forall_mem_nil _), Tree.entriesAll_eq_flatMap]

theorem mem_entries_walkNode (h : OnlyDirs t) (he : e ∈ t.entries above)
    (hmatches : Matches C trimmed e.2.value) :
    e ∈ Tree.entriesAll above (walkNode C trimmed t) := by
  induction h generalizing above with
  | node node nodes hfile hnodes ih =>
      by_cases hself : Matches C trimmed node
      · rw [walkNode_of_matches hself]
        simpa [Tree.entriesAll] using he
      rw [Tree.entries, List.mem_cons, Tree.mem_entriesAll] at he
      obtain rfl | ⟨t, ht, he⟩ := he
      · exact absurd hmatches hself
      have hleft := ih t ht he
      have hdir : node.isDir = true := by
        by_contra hfile'
        rw [hfile (Bool.eq_false_iff.mpr hfile')] at ht
        cases ht
      have hmem : e ∈ Tree.entriesAll (node :: above) (walk C trimmed nodes) := by
        rw [walk_eq_flatMap, Tree.entriesAll_eq_flatMap, List.flatMap_assoc, List.mem_flatMap]
        exact ⟨t, ht, by rwa [← Tree.entriesAll_eq_flatMap]⟩
      have hne : walk C trimmed nodes ≠ [] := fun h => by
        rw [h] at hmem
        cases hmem
      rw [walkNode_of_not_matches hself, if_pos ⟨hdir, hne⟩]
      simp [Tree.entriesAll, Tree.entries, hmem]

theorem walk_walkNode (t : TreeNode) :
    walk C trimmed (walkNode C trimmed t) = walkNode C trimmed t := by
  induction t using Tree.induct with
  | node node nodes ih =>
      have hwalk : walk C trimmed (walk C trimmed nodes) = walk C trimmed nodes := by
        rw [walk_eq_flatMap, walk_eq_flatMap, List.flatMap_assoc]
        exact List.flatMap_congr fun t ht => by rw [← walk_eq_flatMap, ih t ht]
      by_cases hself : Matches C trimmed node
      · rw [walkNode_of_matches hself, walk, walk, walkNode_of_matches hself, List.append_nil]
      · rw [walkNode_of_not_matches hself]
        split_ifs with hleft
        · rw [walk, walk, walkNode_of_not_matches hself, hwalk, if_pos hleft, List.append_nil]
        · rw [walk]

/-- The filter keeps the nodes it should, where they were; a directory that matches keeps all that
is below it; and filtering again changes nothing. -/
theorem filterTree_keeps (tree : List TreeNode) (query : Text) (h : ∀ t ∈ tree, OnlyDirs t)
    (hquery : trim query ≠ []) :
    (Tree.entriesAll [] (filterTree C tree query)).map listed =
      ((Tree.entriesAll [] tree).filter (Kept C (trim query) ·)).map listed ∧
    (∀ e ∈ Tree.entriesAll [] tree, e.2.value.isDir = true →
      Matches C (trim query) e.2.value → e ∈ Tree.entriesAll [] (filterTree C tree query)) ∧
    filterTree C (filterTree C tree query) query = filterTree C tree query := by
  have hfilter : ∀ tree, filterTree C tree query = walk C (trim query) tree := fun tree =>
    if_neg (by simpa using hquery)
  simp only [hfilter]
  refine ⟨listed_walk h, fun e he _ hmatches => ?_, ?_⟩
  · obtain ⟨t, ht, he⟩ := Tree.mem_entriesAll.mp he
    have hmem := mem_entries_walkNode (h t ht) he hmatches
    rw [walk_eq_flatMap, Tree.entriesAll_eq_flatMap, List.flatMap_assoc, List.mem_flatMap]
    exact ⟨t, ht, by rwa [← Tree.entriesAll_eq_flatMap]⟩
  · rw [walk_eq_flatMap tree, walk_eq_flatMap, List.flatMap_assoc]
    exact List.flatMap_congr fun t _ => by rw [← walk_eq_flatMap, walk_walkNode]

/-- A folder with a file in a folder, and a file next to it. -/
theorem filterTree_keeps_one :
    let node (path name : String) (isDir : Bool) : Node :=
      ⟨⟨units path, units path, isDir, [], []⟩, units name⟩
    let main := Lib.Forest.Tree.node (node "src/lib/Main.ts" "Main.ts" false) []
    let lib := Lib.Forest.Tree.node (node "src/lib" "lib" true) [main]
    let other := Lib.Forest.Tree.node (node "src/x.ts" "x.ts" false) []
    (Tree.entriesAll [] (filterTree latinGreek
        [.node (node "src" "src" true) [lib, other]] (units " MAIN "))).map listed =
      [([], node "src" "src" true), ([node "src" "src" true], node "src/lib" "lib" true),
        ([node "src/lib" "lib" true, node "src" "src" true],
          node "src/lib/Main.ts" "Main.ts" false)] := by
  intro node main lib other
  have honly : ∀ t ∈ [Lib.Forest.Tree.node (node "src" "src" true) [lib, other]], OnlyDirs t := by
    have hmain : OnlyDirs main := .node _ _ (fun _ => rfl) (by simp)
    have hother : OnlyDirs other := .node _ _ (fun _ => rfl) (by simp)
    have hlib : OnlyDirs lib := .node _ _ (by decide) (by simpa using hmain)
    have hsrc : OnlyDirs (.node (node "src" "src" true) [lib, other]) :=
      .node _ _ (by decide) (by simpa using ⟨hlib, hother⟩)
    simpa using hsrc
  rw [(filterTree_keeps (C := latinGreek) _ (units " MAIN ") honly (by decide)).1]
  decide

end CollabIDE.Search.TreeFilter
