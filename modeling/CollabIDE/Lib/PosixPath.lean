import CollabIDE.Lib.PathPrefix
/-!
# POSIX paths

Paths as lists of characters.  Resolving joins paths from the last absolute one
on and works off the empty segments, `.` and `..`; a path with nothing to work
off resolves to itself, below another to the two in a row.
-/

namespace CollabIDE.Lib.PosixPath

open CollabIDE.Lib.PathPrefix

/-- The segments with the empty ones and `.` left out, and `..` taking back the one before it. -/
def normalize (segments : List (List Char)) : List (List Char) :=
  segments.foldl (fun kept s =>
    if s = [] ∨ s = ['.'] then kept else if s = ['.', '.'] then kept.dropLast else kept ++ [s]) []

/-- The paths in a row, from the last absolute one on. -/
def joinFrom (cwd : List Char) (paths : List (List Char)) : List Char :=
  paths.foldl (fun front p =>
    if p = [] then front else if p.head? = some '/' then p else front ++ '/' :: p) cwd

/-- The absolute path, where `cwd` is one. -/
def resolve (cwd : List Char) (paths : List (List Char)) : List Char :=
  '/' :: ['/'].intercalate (normalize ((joinFrom cwd paths).splitOn '/'))

/-- A segment that stands for itself. -/
structure Proper (s : List Char) : Prop where
  ne_nil : s ≠ []
  ne_dot : s ≠ ['.']
  ne_dots : s ≠ ['.', '.']

/-- Nothing in the path is worked off. -/
def Clean (p : List Char) : Prop := ∀ s ∈ p.splitOn '/', Proper s

theorem normalize_append (front segments : List (List Char)) (h : ∀ s ∈ segments, Proper s) :
    normalize (front ++ segments) = normalize front ++ segments := by
  rw [normalize, List.foldl_append]
  change List.foldl _ (normalize front) segments = _
  generalize normalize front = kept
  induction segments generalizing kept with
  | nil => simp
  | cons s segments ih =>
      have hs := h s List.mem_cons_self
      rw [List.foldl_cons, if_neg (not_or.mpr ⟨hs.ne_nil, hs.ne_dot⟩), if_neg hs.ne_dots,
        ih (fun s hs => h s (List.mem_cons_of_mem _ hs)), List.append_assoc]
      rfl

theorem normalize_proper {segments : List (List Char)} {s : List Char}
    (hs : s ∈ normalize segments) : Proper s ∧ s ∈ segments := by
  suffices hloop : ∀ kept : List (List Char), s ∈ segments.foldl (fun kept s =>
      if s = [] ∨ s = ['.'] then kept else if s = ['.', '.'] then kept.dropLast else kept ++ [s])
        kept → s ∈ kept ∨ Proper s ∧ s ∈ segments from
    (hloop [] hs).resolve_left List.not_mem_nil
  clear hs
  induction segments with
  | nil => exact fun kept hs => .inl hs
  | cons r segments ih =>
      intro kept hs
      rw [List.foldl_cons] at hs
      rcases ih _ hs with hkept | ⟨hproper, hmem⟩
      · split_ifs at hkept with hskip hup
        · exact .inl hkept
        · exact .inl (List.mem_of_mem_dropLast hkept)
        · rcases List.mem_append.mp hkept with hkept | hnew
          · exact .inl hkept
          · obtain rfl := List.mem_singleton.mp hnew
            obtain ⟨hne, hdot⟩ := not_or.mp hskip
            exact .inr ⟨⟨hne, hdot, hup⟩, List.mem_cons_self⟩
      · exact .inr ⟨hproper, List.mem_cons_of_mem _ hmem⟩

theorem splitOn_slash_cons (p : List Char) : ('/' :: p).splitOn '/' = [] :: p.splitOn '/' :=
  splitOn_cons_self p

theorem Clean.append {p q : List Char} (hp : Clean p) (hq : Clean q) : Clean (p ++ '/' :: q) := by
  intro s hs
  rw [List.splitOn_append_cons_self, List.mem_append] at hs
  exact hs.elim (hp s) (hq s)

theorem Clean.ne_nil {p : List Char} (h : Clean p) : p ≠ [] := by
  rintro rfl
  exact (h [] (by simp)).ne_nil rfl

theorem Clean.head?_ne {p : List Char} (h : Clean p) : p.head? ≠ some '/' := by
  cases p with
  | nil => simp
  | cons c p =>
      rintro hc
      obtain rfl := Option.some.inj hc
      exact (h [] (by rw [splitOn_slash_cons]; exact List.mem_cons_self)).ne_nil rfl

/-- A path that resolves to itself is clean behind its first slash, or is the root. -/
theorem clean_of_resolve {cwd p : List Char} (h : resolve cwd [p] = p) (hroot : p ≠ ['/']) :
    ∃ rest, p = '/' :: rest ∧ Clean rest := by
  refine ⟨_, h.symm, ?_⟩
  set segments := (joinFrom cwd [p]).splitOn '/' with hsegments
  have hne : normalize segments ≠ [] := by
    intro hnil
    rw [resolve, ← hsegments, hnil] at h
    exact hroot h.symm
  have hslash : ∀ s ∈ normalize segments, '/' ∉ s := fun s hs =>
    sep_not_mem_segment (normalize_proper hs).2
  intro s hs
  rw [List.splitOn_intercalate '/' hslash hne] at hs
  exact (normalize_proper hs).1

/-- Below such a path a clean path resolves to the two in a row. -/
theorem resolve_clean {rest p : List Char} (cwd : List Char) (hrest : Clean rest) (hp : Clean p) :
    resolve cwd ['/' :: rest, p] = '/' :: rest ++ '/' :: p := by
  have hjoin : joinFrom cwd ['/' :: rest, p] = '/' :: (rest ++ '/' :: p) := by
    simp [joinFrom, hp.ne_nil, hp.head?_ne]
  have hnormal : normalize ([] :: (rest ++ '/' :: p).splitOn '/') =
      (rest ++ '/' :: p).splitOn '/' := normalize_append [[]] _ (hrest.append hp)
  rw [resolve, hjoin, splitOn_slash_cons, hnormal, List.intercalate_splitOn]
  rfl

end CollabIDE.Lib.PosixPath
