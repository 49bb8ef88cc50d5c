import CollabIDE.Files.Nodes
import CollabIDE.Lib.Substring
import CollabIDE.Search.Strings
/-!
# How a search matches

`matchPath` finds a query in a path, as it stands there or as a subsequence,
`matchContent` finds the lines of a file that hold it, and `filterTree` keeps
the nodes of a tree whose names match.  The ranges they give out are positions
of the lowercased text.
-/

namespace CollabIDE.Search.Match

open CollabIDE.Lib.Substring CollabIDE.Search.Strings

/-- A slice of a string, `start` inclusive and `stop` exclusive. -/
structure Range where
  start : Int
  stop : Int
  deriving DecidableEq

structure NameMatch where
  score : Int
  ranges : List Range
  deriving DecidableEq

/-! ## Paths -/

/-- The variables of the loop of `subsequenceRanges`. -/
structure Scan where
  ranges : List Range
  cursor : Nat
  /-- `-1` until something is found. -/
  first : Int

/-- A found position makes the last range longer, or starts one. -/
def extend (ranges : List Range) (found : Nat) : List Range :=
  match ranges.getLast? with
  | some last =>
    if last.stop = found then ranges.dropLast ++ [{ last with stop := found + 1 }]
    else ranges ++ [⟨found, found + 1⟩]
  | none => [⟨found, found + 1⟩]

/-- One round of the loop. -/
def scanChar (haystack : Text) (s : Scan) (char : Text) : Option Scan :=
  (indexOf haystack char s.cursor).map fun found =>
    { ranges := extend s.ranges found
      cursor := found + 1
      first := if s.first = -1 then found else s.first }

structure Subsequence where
  ranges : List Range
  spread : Int

def subsequenceRanges (haystack needle : Text) (start : Nat) : Option Subsequence :=
  ((chars needle).foldlM (scanChar haystack) ⟨[], start, -1⟩).map fun s =>
    ⟨s.ranges, s.cursor - s.first - needle.length⟩

/-- Where the last segment of a path starts. -/
def nameStart (path : Text) : Nat :=
  match lastIndexOf path [slash] with
  | some i => i + 1
  | none => 0

section Lower

variable (C : Casing)

def matchPath (path query : Text) : Option NameMatch :=
  if query.length = 0 then none
  else
    let haystack := toLowerCase C path
    let needle := toLowerCase C query
    match indexOf haystack needle 0 with
    | some direct =>
      let base : Int :=
        if nameStart path ≤ direct then (if direct = nameStart path then 0 else 100) else 300
      some ⟨base + direct, [⟨direct, direct + needle.length⟩]⟩
    | none =>
      match subsequenceRanges haystack needle (nameStart path) with
      | some inName => some ⟨1000 + inName.spread, inName.ranges⟩
      | none =>
        (subsequenceRanges haystack needle 0).map fun anywhere =>
          ⟨2000 + anywhere.spread, anywhere.ranges⟩

/-! ## Contents -/

structure ContentMatch where
  /-- From 1 on. -/
  line : Nat
  snippet : Text
  ranges : List Range
  offset : Nat
  deriving DecidableEq

def SNIPPET_BEFORE : Int := 32
def SNIPPET_AFTER : Int := 120

/-- The variables of the loop of `matchContent`. -/
structure Cursors where
  cursor : Nat
  line : Nat
  lineStart : Nat
  scanned : Nat

/-- One round of the inner loop. -/
def countUnit (content : Text) (c : Cursors) (scanned : Nat) : Cursors :=
  if content[scanned]? = some newline then
    { c with line := c.line + 1, lineStart := scanned + 1, scanned := scanned + 1 }
  else { c with scanned := scanned + 1 }

/-- The inner loop: the newlines before `found`. -/
def countLines (content : Text) (found : Nat) (c : Cursors) : Cursors :=
  (List.range' c.scanned (found - c.scanned)).foldl (countUnit content) c

/-- A match at `column` of the line `raw`, clipped. -/
def clip (raw : Text) (column length : Int) : Text × Range :=
  let indent : Int := raw.length - (trimStart raw).length
  let start := max indent (column - SNIPPET_BEFORE)
  let stop := min (raw.length : Int) (column + length + SNIPPET_AFTER)
  let before : Text := if indent < start then [ellipsis] else []
  let after : Text := if stop < raw.length then [ellipsis] else []
  let first := before.length + (column - start)
  (before ++ slice raw start stop ++ after, ⟨first, first + length⟩)

/-- The end of the line a position is in. -/
def lineEnd (content : Text) (found : Nat) : Nat :=
  match indexOf content [newline] found with
  | some i => i
  | none => content.length

/-- The loop, for as many rounds as it may find matches. -/
def scanContent (content haystack needle : Text) : Nat → Cursors → List ContentMatch
  | 0, _ => []
  | rounds + 1, c =>
    match indexOf haystack needle c.cursor with
    | none => []
    | some found =>
      let c := countLines content found c
      let raw := slice content c.lineStart (lineEnd content found)
      let (snippet, range) := clip raw (found - c.lineStart) needle.length
      { line := c.line, snippet, ranges := [range], offset := found } ::
        scanContent content haystack needle rounds { c with cursor := lineEnd content found + 1 }

def matchContent (content query : Text) (limit : Nat) : List ContentMatch :=
  if query.length = 0 then []
  else scanContent content (toLowerCase C content) (toLowerCase C query) limit ⟨0, 1, 0, 0⟩

/-! ## Trees -/

abbrev Node := Files.Nodes.Node Text Text

abbrev TreeNode := Files.Nodes.TreeNode Text Text

mutual

/-- One round of the loop of `walk`. -/
def walkNode (trimmed : Text) : TreeNode → List TreeNode
  | .node node nodes =>
    if node.isDir then
      if (matchPath C node.name trimmed).isSome then [.node node nodes]
      else
        let children := walk trimmed nodes
        if 0 < children.length then [.node node children] else []
    else if (matchPath C node.name trimmed).isSome then [.node node nodes]
    else []

def walk (trimmed : Text) : List TreeNode → List TreeNode
  | [] => []
  | node :: nodes => walkNode trimmed node ++ walk trimmed nodes

end

def filterTree (tree : List TreeNode) (query : Text) : List TreeNode :=
  if (trim query).length = 0 then tree else walk C (trim query) tree

end Lower

end CollabIDE.Search.Match
