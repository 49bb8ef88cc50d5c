import CollabIDE.Execution.Wire
import CollabIDE.Http.Errors
import CollabIDE.Lib.PathPrefix
import Mathlib.Data.List.Nodup
/-!
# Path rules for project files

A path is a POSIX path relative to the project root.  The functions are the
string computations of the file service, with lengths in UTF-16 units; a string
with a lone surrogate half is left out, since the database cannot store it.
-/

namespace CollabIDE.Files.Paths

open CollabIDE.Execution.Wire CollabIDE.Http.Errors CollabIDE.Lib.PathPrefix

def MAX_PATH_LENGTH : Nat := 1024
def MAX_SEGMENT_LENGTH : Nat := 255
def MAX_DEPTH : Nat := 32

/-- What `String.prototype.trim` removes at both ends. -/
def isTrimmed (c : Char) : Bool :=
  c.toNat ∈ [0x20, 0xa0, 0x1680, 0x2028, 0x2029, 0x202f, 0x205f, 0x3000, 0xfeff] ||
    (0x09 ≤ c.toNat && c.toNat ≤ 0x0d) || (0x2000 ≤ c.toNat && c.toNat ≤ 0x200a)

/-- `String.prototype.trim`. -/
def trim (s : String) : String :=
  String.ofList ((s.toList.dropWhile isTrimmed).reverse.dropWhile isTrimmed).reverse

/-- `CONTROL_CHARS`: NUL through US, and DEL. -/
def isControlChar (c : Char) : Bool := c.toNat ≤ 0x1f || c.toNat = 0x7f

/-- `path.split('/')`. -/
def split (path : String) : List String := (path.toList.splitOn '/').map String.ofList

def invalid (reason : String) : AppError := ⟨400, "INVALID_PATH", reason⟩

/-- One round of the loop over the segments. -/
def checkSegment (segment : String) : Except AppError Unit :=
  if utf16Length segment = 0 then .error (invalid "Path must not contain an empty segment")
  else if segment = "." ∨ segment = ".." then
    .error (invalid "Path must not contain \".\" or \"..\" segments")
  else if utf16Length segment > MAX_SEGMENT_LENGTH then
    .error (invalid s!"Each path segment must be at most {MAX_SEGMENT_LENGTH} characters")
  else if segment ≠ trim segment then
    .error (invalid "Path segments must not start or end with whitespace")
  else .ok ()

/-- `none` is an input that is not a string. -/
def assertValidPath : Option String → Except AppError String
  | none => .error (invalid "Path must be a string")
  | some input =>
    if utf16Length input = 0 then .error (invalid "Path must not be empty")
    else if utf16Length input > MAX_PATH_LENGTH then
      .error (invalid s!"Path must be at most {MAX_PATH_LENGTH} characters")
    else if input ≠ trim input then
      .error (invalid "Path must not start or end with whitespace")
    else if input.toList.any isControlChar then
      .error (invalid "Path must not contain control characters")
    else if '\\' ∈ input.toList then .error (invalid "Path must use forward slashes")
    else if input.toList.head? = some '/' then
      .error (invalid "Path must be relative to the project root")
    else if input.toList.getLast? = some '/' then
      .error (invalid "Path must not end with a slash")
    else if (split input).length > MAX_DEPTH then
      .error (invalid s!"Path must be at most {MAX_DEPTH} levels deep")
    else do
      (split input).forM checkSegment
      .ok input

def baseName (path : String) : String := String.ofList (afterLast '/' path.toList)

/-- `none` where there is no slash. -/
def parentPath (path : String) : Option String :=
  if '/' ∈ path.toList then some (String.ofList (beforeLast '/' path.toList)) else none

/-- Every ancestor directory of a path, shallowest first. -/
def ancestorPaths (path : String) : List String :=
  let segments := (split path).dropLast
  (List.range segments.length).map fun i => "/".intercalate (segments.take (i + 1))

/-- `path.startsWith(directory + '/')`. -/
def isDescendantOf (path directory : String) : Bool :=
  (directory ++ "/").toList.isPrefixOf path.toList

/-- `String.prototype.slice` from a position in UTF-16 units. -/
def sliceFrom : List Char → Nat → List Char
  | cs, 0 => cs
  | [], _ => []
  | c :: cs, n => sliceFrom cs (n - utf16Size c)

def replacePathPrefix (path fromDir toDir : String) : String :=
  toDir ++ String.ofList (sliceFrom path.toList (utf16Length fromDir))

/-! ## The functions on the underlying characters -/

theorem isDescendantOf_iff {path directory : String} :
    isDescendantOf path directory = true ↔ Below '/' path.toList directory.toList := by
  simp [isDescendantOf, Below]

theorem toList_intercalate_ofList (segments : List (List Char)) :
    ("/".intercalate (segments.map String.ofList)).toList = ['/'].intercalate segments := by
  rw [String.toList_intercalate, List.map_map]
  congr 1
  exact List.map_id'' (fun s => String.toList_ofList) segments

theorem map_toList_ancestorPaths (path : String) :
    (ancestorPaths path).map String.toList = parents '/' path.toList := by
  rw [ancestorPaths, parents, List.map_map, split, ← List.map_dropLast, List.length_map]
  refine List.map_congr_left fun i _ => ?_
  rw [Function.comp_apply, ← List.map_take]
  exact toList_intercalate_ofList _

/-- The loop over the segments lists exactly the directories above the path. -/
theorem mem_ancestorPaths {path a : String} :
    a ∈ ancestorPaths path ↔ isDescendantOf path a = true := by
  rw [isDescendantOf_iff, ← mem_parents, ← map_toList_ancestorPaths, List.mem_map]
  constructor
  · exact fun h => ⟨a, h, rfl⟩
  · rintro ⟨b, hb, heq⟩
    exact String.toList_inj.mp heq ▸ hb

theorem isDescendantOf_iff_parentPath {path parent a : String}
    (h : parentPath path = some parent) :
    isDescendantOf path a = true ↔ a = parent ∨ isDescendantOf parent a = true := by
  obtain ⟨hslash, hparent⟩ := Option.ite_none_right_eq_some.mp h
  have hlist : parent.toList = beforeLast '/' path.toList := by
    rw [← Option.some.inj hparent, String.toList_ofList]
  have hpath := beforeLast_append_afterLast hslash
  rw [isDescendantOf_iff, isDescendantOf_iff, ← hpath, below_append_iff (not_mem_afterLast _ _),
    ← hlist, String.toList_inj]

theorem parentPath_eq_none {path a : String} (h : parentPath path = none) :
    ¬ isDescendantOf path a = true := by
  have hslash : '/' ∉ path.toList := by simpa [parentPath] using h
  rw [isDescendantOf_iff, below_iff]
  rintro ⟨rest, heq⟩
  exact hslash (heq ▸ by simp)

theorem nodup_ancestorPaths (path : String) : (ancestorPaths path).Nodup :=
  List.Nodup.of_map String.toList (map_toList_ancestorPaths path ▸ nodup_parents _ _)

theorem utf16Size_pos (c : Char) : 0 < utf16Size c := by
  unfold utf16Size
  split <;> omega

theorem sliceFrom_append (front rest : List Char) :
    sliceFrom (front ++ rest) (front.map utf16Size).sum = rest := by
  induction front with
  | nil => cases rest <;> rfl
  | cons c front ih =>
      have hpos := utf16Size_pos c
      obtain ⟨n, hn⟩ : ∃ n, (List.map utf16Size (c :: front)).sum = n + 1 :=
        ⟨utf16Size c + (front.map utf16Size).sum - 1, by simp; omega⟩
      have hrest : n + 1 - utf16Size c = (front.map utf16Size).sum := by
        rw [← hn]
        simp
      rw [hn, List.cons_append, sliceFrom, hrest]
      · exact ih
      · omega

theorem toList_replacePathPrefix {path fromDir : String} (h : fromDir.toList <+: path.toList)
    (toDir : String) :
    (replacePathPrefix path fromDir toDir).toList =
      rebase fromDir.toList toDir.toList path.toList := by
  obtain ⟨rest, hrest⟩ := h
  rw [replacePathPrefix, String.toList_append, String.toList_ofList, ← hrest, rebase_append,
    utf16Length, sliceFrom_append]

/-! ## The order of the paths -/

theorem not_isDescendantOf_self (path : String) : ¬ isDescendantOf path path = true := by
  rw [isDescendantOf_iff]
  exact not_below_self

theorem isDescendantOf_trans {p a b : String} (hpa : isDescendantOf p a = true)
    (hab : isDescendantOf a b = true) : isDescendantOf p b = true := by
  rw [isDescendantOf_iff] at *
  exact hpa.trans hab

theorem isDescendantOf_asymm {p a : String} (h : isDescendantOf p a = true) :
    ¬ isDescendantOf a p = true := fun h' =>
  not_isDescendantOf_self p (isDescendantOf_trans h h')

theorem isDescendantOf_replacePathPrefix {p a : String} (h : isDescendantOf p a = true)
    (b : String) : isDescendantOf (replacePathPrefix p a b) b = true := by
  rw [isDescendantOf_iff] at *
  rw [toList_replacePathPrefix h.isPrefix]
  exact below_rebase _ h

theorem replacePathPrefix_injOn {p q a b : String} (hp : isDescendantOf p a = true)
    (hq : isDescendantOf q a = true)
    (h : replacePathPrefix p a b = replacePathPrefix q a b) : p = q := by
  rw [isDescendantOf_iff] at hp hq
  rw [← String.toList_inj, toList_replacePathPrefix hp.isPrefix,
    toList_replacePathPrefix hq.isPrefix] at h
  exact String.toList_inj.mp (rebase_injOn hp.isPrefix hq.isPrefix h)

/-- The ancestors of a moved path: those of the new directory, the new directory, and the moved
paths from between. -/
theorem isDescendantOf_replacePathPrefix_iff {p a b q : String}
    (h : isDescendantOf p a = true) :
    isDescendantOf (replacePathPrefix p a b) q = true ↔
      isDescendantOf b q = true ∨ q = b ∨
        ∃ m, isDescendantOf m a = true ∧ isDescendantOf p m = true ∧
          q = replacePathPrefix m a b := by
  have hp := isDescendantOf_iff.mp h
  simp only [isDescendantOf_iff]
  rw [toList_replacePathPrefix hp.isPrefix, below_rebase_iff hp, String.toList_inj]
  refine or_congr_right (or_congr_right ?_)
  constructor
  · rintro ⟨m, hma, hpm, hq⟩
    have hm : Below '/' (String.ofList m).toList a.toList := by rwa [String.toList_ofList]
    refine ⟨String.ofList m, hm, by rwa [String.toList_ofList], ?_⟩
    rw [← String.toList_inj, hq, toList_replacePathPrefix hm.isPrefix, String.toList_ofList]
  · rintro ⟨m, hma, hpm, rfl⟩
    exact ⟨m.toList, hma, hpm, toList_replacePathPrefix hma.isPrefix b⟩

end CollabIDE.Files.Paths
