import CollabIDE.Files.Tree
import CollabIDE.Lib.Machine
import Mathlib.Data.List.DropRight
/-!
# The path rules on stored paths

The checks of `assertValidPath` come down to one rule for every segment and two
bounds on the whole path.  Only the path a caller types is checked.  What the
service computes from it, the ancestors of a new row and the rows a move takes
along, keeps the first; a move can break the bounds.
-/

namespace CollabIDE.Files.Validity

open CollabIDE.Execution.Wire CollabIDE.Files.FileTable CollabIDE.Files.Paths
open CollabIDE.Files.Service CollabIDE.Files.ServiceSpec CollabIDE.Files.Transaction
open CollabIDE.Files.Tree CollabIDE.Lib.Machine CollabIDE.Lib.PathPrefix

/-- What the checks ask of one segment, those made on the whole path included. -/
structure GoodSegment (segment : String) : Prop where
  checked : checkSegment segment = .ok ()
  control : ∀ c ∈ segment.toList, isControlChar c = false
  slashes : '\\' ∉ segment.toList

def Segmented (path : String) : Prop := ∀ segment ∈ split path, GoodSegment segment

/-- The bounds on the whole path. -/
def Bounded (path : String) : Prop :=
  utf16Length path ≤ MAX_PATH_LENGTH ∧ (split path).length ≤ MAX_DEPTH

def Valid (path : String) : Prop := assertValidPath (some path) = .ok path

instance (path : String) : Decidable (Valid path) := inferInstanceAs (Decidable (_ = _))

/-! ## The checks -/

theorem utf16Length_eq_zero {s : String} : utf16Length s = 0 ↔ s = "" := by
  constructor
  · intro h
    rw [utf16Length] at h
    rw [← String.toList_eq_nil_iff]
    cases hs : s.toList with
    | nil => rfl
    | cons c cs =>
        rw [hs, List.map_cons, List.sum_cons] at h
        have := utf16Size_pos c
        omega
  · rintro rfl
    rfl

theorem eq_trim_iff {s : String} :
    s = trim s ↔ (∀ c, s.toList.head? = some c → isTrimmed c = false) ∧
      ∀ c, s.toList.getLast? = some c → isTrimmed c = false := by
  have hdrop : s.toList.dropWhile isTrimmed = s.toList ↔
      ∀ c, s.toList.head? = some c → isTrimmed c = false := by
    cases s.toList with
    | nil => simp
    | cons c cs => simp [List.dropWhile_eq_self_iff]
  have hrdrop : s.toList.rdropWhile isTrimmed = s.toList ↔
      ∀ c, s.toList.getLast? = some c → isTrimmed c = false := by
    rcases List.eq_nil_or_concat s.toList with h | ⟨front, c, h⟩ <;> simp [h]
  rw [← hdrop, ← hrdrop, ← String.toList_inj, trim, String.toList_ofList]
  change s.toList = (s.toList.dropWhile isTrimmed).rdropWhile isTrimmed ↔ _
  constructor
  · intro h
    have hle := (List.rdropWhile_prefix isTrimmed (s.toList.dropWhile isTrimmed)).length_le
    have hfront : s.toList.dropWhile isTrimmed = s.toList := by
      refine (List.dropWhile_suffix isTrimmed).eq_of_length_le ?_
      rwa [← h] at hle
    rw [hfront] at h
    exact ⟨hfront, h.symm⟩
  · rintro ⟨hfront, hback⟩
    rw [hfront, hback]

theorem checkSegment_eq_ok {segment : String} :
    checkSegment segment = .ok () ↔ segment ≠ "" ∧ ¬ (segment = "." ∨ segment = "..") ∧
      utf16Length segment ≤ MAX_SEGMENT_LENGTH ∧ segment = trim segment := by
  unfold checkSegment
  simp only [utf16Length_eq_zero]
  split_ifs with hempty hdots hlong htrim
  · exact iff_of_false (fun h => by cases h) fun h => h.1 hempty
  · exact iff_of_false (fun h => by cases h) fun h => h.2.1 hdots
  · exact iff_of_false (fun h => by cases h) fun h => not_le.mpr hlong h.2.2.1
  · exact iff_of_false (fun h => by cases h) fun h => htrim h.2.2.2
  · exact iff_of_true rfl ⟨hempty, hdots, not_lt.mp hlong, not_not.mp htrim⟩

theorem forM_checkSegment_eq_ok {segments : List String} :
    segments.forM checkSegment = .ok () ↔ ∀ s ∈ segments, checkSegment s = .ok () := by
  induction segments with
  | nil => exact ⟨fun _ _ h => absurd h List.not_mem_nil, fun _ => rfl⟩
  | cons s segments ih =>
      rw [List.forall_mem_cons, ← ih]
      change (checkSegment s).bind (fun _ => segments.forM checkSegment) = _ ↔ _
      cases checkSegment s with
      | error e => simp [Except.bind]
      | ok r => simp [Except.bind]

theorem toList_of_mem_split {path segment : String} (h : segment ∈ split path) :
    segment.toList ∈ path.toList.splitOn '/' := by
  obtain ⟨s, hs, rfl⟩ := List.mem_map.mp h
  rwa [String.toList_ofList]

theorem exists_segment_of_mem {path : String} {c : Char} (h : c ∈ path.toList) (hc : c ≠ '/') :
    ∃ s ∈ split path, c ∈ s.toList := by
  obtain ⟨s, hs, hcs⟩ := (mem_segment_iff hc).mpr h
  exact ⟨_, List.mem_map_of_mem hs, by rwa [String.toList_ofList]⟩

theorem ne_slash {path segment : String} {c : Char} (h : segment ∈ split path)
    (hc : c ∈ segment.toList) : c ≠ '/' := by
  rintro rfl
  exact sep_not_mem_segment (toList_of_mem_split h) hc

theorem exists_segment_ends {path : String} (h : Segmented path) :
    (∃ s ∈ split path, path.toList.head? = s.toList.head? ∧ s.toList.head? ≠ none) ∧
      ∃ s ∈ split path, path.toList.getLast? = s.toList.getLast? ∧ s.toList.getLast? ≠ none := by
  have hne : ∀ s ∈ path.toList.splitOn '/', s ≠ [] := by
    rintro s hs rfl
    have hgood := h _ (List.mem_map_of_mem hs)
    exact (checkSegment_eq_ok.mp hgood.checked).1 rfl
  obtain ⟨first, hfirst, hstart⟩ := exists_segment_prefix '/' path.toList
  obtain ⟨last, hlast, hsuffix⟩ := exists_segment_suffix '/' path.toList
  refine ⟨⟨_, List.mem_map_of_mem hfirst, ?_⟩, ⟨_, List.mem_map_of_mem hlast, ?_⟩⟩
  · obtain ⟨rest, hrest⟩ := hstart
    rw [String.toList_ofList, ← hrest, List.head?_append_of_ne_nil _ (hne _ hfirst)]
    exact ⟨rfl, by simpa using hne _ hfirst⟩
  · obtain ⟨rest, hrest⟩ := hsuffix
    rw [String.toList_ofList, ← hrest, List.getLast?_append_of_ne_nil _ (hne _ hlast)]
    exact ⟨rfl, by simpa using hne _ hlast⟩

/-- What `assertValidPath` asks of a path. -/
theorem valid_iff {path : String} : Valid path ↔ Segmented path ∧ Bounded path := by
  rw [Valid, assertValidPath]
  constructor
  · intro h
    split_ifs at h with hempty hlong htrim hcontrol hslash hroot hend hdeep
    cases hloop : (split path).forM checkSegment with
    | error e =>
        rw [hloop] at h
        cases h
    | ok r =>
        refine ⟨fun s hs => ⟨forM_checkSegment_eq_ok.mp hloop s hs, fun c hc => ?_, fun hc => ?_⟩,
          not_lt.mp hlong, not_lt.mp hdeep⟩
        · have hmem := (mem_segment_iff (ne_slash hs hc)).mp ⟨_, toList_of_mem_split hs, hc⟩
          rw [List.any_eq_true] at hcontrol
          exact Bool.eq_false_iff.mpr fun hctl => hcontrol ⟨c, hmem, hctl⟩
        · exact hslash ((mem_segment_iff (ne_slash hs hc)).mp ⟨_, toList_of_mem_split hs, hc⟩)
  · rintro ⟨hsegments, hlength, hdepth⟩
    obtain ⟨⟨first, hfirst, hhead, hhead'⟩, last, hlast, hback, hback'⟩ :=
      exists_segment_ends hsegments
    have htrimmed := fun s hs => (checkSegment_eq_ok.mp (hsegments s hs).checked).2.2.2
    have hempty : ¬ utf16Length path = 0 := fun h => by
      rw [utf16Length_eq_zero] at h
      rw [h] at hhead
      exact hhead' hhead.symm
    have htrim : path = trim path := by
      rw [eq_trim_iff, hhead, hback]
      exact ⟨(eq_trim_iff.mp (htrimmed first hfirst)).1, (eq_trim_iff.mp (htrimmed last hlast)).2⟩
    have hcontrol : ¬ path.toList.any isControlChar = true := by
      rw [List.any_eq_true]
      rintro ⟨c, hc, hctl⟩
      by_cases hsep : c = '/'
      · subst hsep
        exact absurd hctl (by decide)
      · obtain ⟨s, hs, hcs⟩ := exists_segment_of_mem hc hsep
        rw [(hsegments s hs).control c hcs] at hctl
        cases hctl
    have hslash : '\\' ∉ path.toList := fun hc => by
      obtain ⟨s, hs, hcs⟩ := exists_segment_of_mem hc (by decide)
      exact (hsegments s hs).slashes hcs
    have hroot : path.toList.head? ≠ some '/' := fun h =>
      ne_slash hfirst (List.mem_of_head? (hhead ▸ h)) rfl
    have hend : path.toList.getLast? ≠ some '/' := fun h =>
      ne_slash hlast (List.mem_of_getLast? (hback ▸ h)) rfl
    rw [if_neg hempty, if_neg (not_lt.mpr hlength), if_neg (not_not.mpr htrim), if_neg hcontrol,
      if_neg hslash, if_neg hroot, if_neg hend, if_neg (not_lt.mpr hdepth),
      forM_checkSegment_eq_ok.mpr fun s hs => (hsegments s hs).checked]
    rfl

/-! ## Ancestors and moved paths -/

/-- A moved path keeps the segments below the moved directory. -/
theorem split_replacePathPrefix {path a : String} (h : isDescendantOf path a = true)
    (b : String) :
    ∃ rest, split path = split a ++ rest ∧
      split (replacePathPrefix path a b) = split b ++ rest := by
  have hbelow := isDescendantOf_iff.mp h
  obtain ⟨rest, hpath, hmoved⟩ := splitOn_rebase b.toList hbelow
  refine ⟨rest.map String.ofList, ?_, ?_⟩
  · rw [split, hpath, List.map_append]
    rfl
  · rw [split, toList_replacePathPrefix hbelow.isPrefix, hmoved, List.map_append]
    rfl

theorem utf16Length_replacePathPrefix {path a : String} (h : isDescendantOf path a = true)
    (b : String) :
    utf16Length (replacePathPrefix path a b) + utf16Length a =
      utf16Length b + utf16Length path := by
  have hstart := (isDescendantOf_iff.mp h).isPrefix
  have hmoved := toList_replacePathPrefix hstart b
  obtain ⟨rest, hrest⟩ := hstart
  rw [← hrest, rebase_append] at hmoved
  simp only [utf16Length, hmoved, ← hrest, List.map_append, List.sum_append]
  omega

theorem replacePathPrefix_self {path a : String} (h : isDescendantOf path a = true) :
    replacePathPrefix path a a = path := by
  have hstart := (isDescendantOf_iff.mp h).isPrefix
  rw [← String.toList_inj, toList_replacePathPrefix hstart]
  obtain ⟨rest, hrest⟩ := hstart
  rw [← hrest, rebase_append]

theorem Segmented.above {path a : String} (h : Segmented path)
    (ha : isDescendantOf path a = true) : Segmented a := by
  obtain ⟨rest, hsplit, -⟩ := split_replacePathPrefix ha a
  exact fun s hs => h s (hsplit ▸ List.mem_append_left rest hs)

theorem Segmented.replacePathPrefix {path a b : String} (h : Segmented path) (hb : Segmented b)
    (ha : isDescendantOf path a = true) : Segmented (replacePathPrefix path a b) := by
  obtain ⟨rest, hpath, hmoved⟩ := split_replacePathPrefix ha b
  intro s hs
  rw [hmoved, List.mem_append] at hs
  rcases hs with hs | hs
  · exact hb s hs
  · exact h s (hpath ▸ List.mem_append_right _ hs)

theorem Bounded.above {path a : String} (h : Bounded path) (ha : isDescendantOf path a = true) :
    Bounded a := by
  obtain ⟨rest, hsplit, -⟩ := split_replacePathPrefix ha a
  have hlength : utf16Length a ≤ utf16Length path := by
    obtain ⟨rest, hrest⟩ := (isDescendantOf_iff.mp ha).isPrefix
    simp only [utf16Length, ← hrest, List.map_append, List.sum_append]
    omega
  have hdepth : (split a).length ≤ (split path).length := by
    rw [hsplit, List.length_append]
    omega
  exact ⟨hlength.trans h.1, hdepth.trans h.2⟩

theorem Valid.above {path a : String} (h : Valid path) (ha : isDescendantOf path a = true) :
    Valid a := by
  obtain ⟨hsegments, hbounded⟩ := valid_iff.mp h
  exact valid_iff.mpr ⟨hsegments.above ha, hbounded.above ha⟩

/-- What a path has below the old directory leaves room for the new one above it. -/
def Fits (path fromDir toDir : String) : Prop :=
  utf16Length toDir + utf16Length path ≤ MAX_PATH_LENGTH + utf16Length fromDir ∧
    (split toDir).length + (split path).length ≤ MAX_DEPTH + (split fromDir).length

theorem bounded_replacePathPrefix {path a b : String} (h : isDescendantOf path a = true) :
    Bounded (replacePathPrefix path a b) ↔ Fits path a b := by
  obtain ⟨rest, hpath, hmoved⟩ := split_replacePathPrefix h b
  have hlength := utf16Length_replacePathPrefix h b
  rw [Bounded, Fits, hpath, hmoved, List.length_append, List.length_append]
  omega

theorem valid_replacePathPrefix {path a b : String} (hpath : Valid path) (hb : Valid b)
    (h : isDescendantOf path a = true) : Valid (replacePathPrefix path a b) ↔ Fits path a b := by
  have hsegments := (valid_iff.mp hpath).1.replacePathPrefix (valid_iff.mp hb).1 h
  rw [valid_iff, bounded_replacePathPrefix h, and_iff_right hsegments]

/-! ## The rows of a project -/

variable {out : Outside} {projectId : String} {t v : Table}

/-- What every path of the project's rows satisfies. -/
def EveryPath (P : String → Prop) (projectId : String) (t : Table) : Prop :=
  ∀ row ∈ t.rows, row.projectId = projectId → P row.path

instance (P : String → Prop) [DecidablePred P] (projectId : String) (t : Table) :
    Decidable (EveryPath P projectId t) :=
  inferInstanceAs (Decidable (∀ row ∈ t.rows, _))

/-- The descendants that a move to `newPath` takes along end up on paths with `P`. -/
def CarriesTo (P : String → String → String → Prop) (projectId : String) (t : Table)
    (fileId newPath : String) : Prop :=
  ∀ file ∈ t.rows, file.id = fileId → file.projectId = projectId → file.isDir = true →
    ∀ row ∈ t.rows, row.projectId = projectId → isDescendantOf row.path file.path = true →
      P row.path file.path newPath

instance (path fromDir toDir : String) : Decidable (Fits path fromDir toDir) :=
  inferInstanceAs (Decidable (_ ∧ _))

instance (projectId : String) (t : Table) (fileId newPath : String) :
    Decidable (CarriesTo Fits projectId t fileId newPath) :=
  inferInstanceAs (Decidable (∀ file ∈ t.rows, _ → _ → _ → ∀ row ∈ t.rows, _))

section Steps

variable {P : String → Prop}
  (habove : ∀ {path a : String}, P path → isDescendantOf path a = true → P a)

include habove

theorem everyPath_createBody {p path : String} {isDir : Bool} {row : File}
    (h : EveryPath P projectId t) (hpath : P path)
    (hok : (createBody p path isDir).exec out t = .ok (row, v)) : EveryPath P projectId v := by
  obtain ⟨-, -, rfl, hrows⟩ := createBody_eq_ok hok
  intro r hr hproject
  rw [hrows, List.mem_append, List.mem_append, List.mem_singleton] at hr
  rcases hr with (hr | hr) | rfl
  · exact h r hr hproject
  · obtain ⟨a, ha, -, rfl⟩ := mem_newDirs.mp hr
    exact habove hpath (mem_ancestorPaths.mp ha)
  · exact hpath

/-- Of what a move leaves only the descendants it takes along are in question. -/
theorem everyPath_moveBody {p fileId newPath : String} {row : File} (h : EveryPath P projectId t)
    (hpath : P newPath) (hok : (moveBody p fileId newPath).exec out t = .ok (row, v)) :
    EveryPath P projectId v ↔ (p = projectId →
      CarriesTo (fun path a b => P (replacePathPrefix path a b)) projectId t fileId newPath) := by
  obtain ⟨file, hfile, hid, hproject, -, hmoved⟩ := moveBody_rows hok
  have hsame : ∀ other ∈ t.rows, other.id = fileId → other = file := fun other hother heq =>
    Table.eq_of_id hother hfile (heq.trans hid.symm)
  rcases hmoved with ⟨rfl, rfl⟩ | ⟨-, hrows⟩
  · refine iff_of_true h fun _ other hother heq _ _ row hrow hrp hbelow => ?_
    obtain rfl := hsame other hother heq
    rw [replacePathPrefix_self hbelow]
    exact h row hrow hrp
  have hmem : ∀ row ∈ t.rows, relocate out file newPath row ∈ v.rows := fun row hrow => by
    rw [hrows]
    exact List.mem_append_left _ (List.mem_map_of_mem hrow)
  constructor
  · rintro hv rfl other hother heq - hdir row hrow hrp hbelow
    obtain rfl := hsame other hother heq
    have hmoves : Moves other row := .inr ⟨hdir, hrp.trans hproject.symm, hbelow⟩
    have hne : row.id ≠ other.id := fun hrid => by
      rw [Table.eq_of_id hrow hother hrid] at hbelow
      exact not_isDescendantOf_self _ hbelow
    have hpathv := hv _ (hmem row hrow) ((relocate_projectId other newPath row).trans hrp)
    rwa [relocate_of_moves newPath hmoves, target, if_neg hne] at hpathv
  · intro hcarry r hr hrp
    rw [hrows, List.mem_append, List.mem_map] at hr
    rcases hr with ⟨old, hold, rfl⟩ | hr
    · rw [relocate_projectId] at hrp
      by_cases hmoves : Moves file old
      · have hp : p = projectId := by
          rcases hmoves with heq | ⟨-, heq, -⟩
          · rw [← hproject, ← Table.eq_of_id hold hfile heq, hrp]
          · rw [← hproject, ← heq, hrp]
        rw [relocate_of_moves newPath hmoves]
        rcases target_cases newPath hmoves with heq | ⟨hdir, hbelow, heq, -⟩
        · change P (target file newPath old)
          rwa [heq]
        · change P (target file newPath old)
          rw [heq]
          exact hcarry hp file hfile hid (hproject.trans hp) hdir old hold hrp hbelow
      · rw [relocate_of_not_moves newPath hmoves]
        exact h old hold hrp
    · obtain ⟨a, ha, -, rfl⟩ := mem_newDirs.mp hr
      exact habove hpath (mem_ancestorPaths.mp ha)

end Steps

theorem everyPath_deleteBody {P : String → Prop} {p fileId : String} {ids : List String}
    (h : EveryPath P projectId t) (hok : (deleteBody p fileId).exec out t = .ok (ids, v)) :
    EveryPath P projectId v := by
  obtain ⟨_, _, _, _, hrows⟩ := deleteBody_rows hok
  exact fun row hrow => h row ((hrows row).mp hrow).1

/-! ## Calls one at a time -/

theorem segmented_run (h : EveryPath Segmented projectId t) (out : Outside) (call : Call) :
    EveryPath Segmented projectId (call.run out t).2 := by
  rcases run_cases out t call with ⟨e, heq⟩ | hcommitted
  · rwa [heq]
  · cases hcommitted with
    | createFile hpath hok =>
        exact everyPath_createBody Segmented.above h (valid_iff.mp hpath).1 hok
    | moveFile hpath hok =>
        have hnew := (valid_iff.mp hpath).1
        rw [everyPath_moveBody Segmented.above h hnew hok]
        exact fun _ _ _ _ _ _ row hrow hrp hbelow => (h row hrow hrp).replacePathPrefix hnew hbelow
    | deleteFile hok => exact everyPath_deleteBody h hok

theorem segmented_serial (h : EveryPath Segmented projectId t) (calls : List (Outside × Call)) :
    EveryPath Segmented projectId (serial t calls) := by
  induction calls generalizing t with
  | nil => exact h
  | cons call calls ih => exact ih (segmented_run h call.1 call.2)

/-- A call that goes through, with the table it leaves.  A `deleteFile` counts in any case, since
it can throw after its commit. -/
def step (t : Table) (call : Outside × Call) : Option Table :=
  let r := call.2.run call.1 t
  match call.2 with
  | .deleteFile .. => some r.2
  | _ => r.1.toOption.map fun _ => r.2

/-- The bounds leave room for every row a call moves. -/
def FitsBelow (projectId : String) (t : Table) : Outside × Call → Prop
  | (_, .moveFile p fileId newPath) => p = projectId → CarriesTo Fits projectId t fileId newPath
  | _ => True

instance (projectId : String) (t : Table) : (call : Outside × Call) →
    Decidable (FitsBelow projectId t call)
  | (_, .createFile ..) | (_, .deleteFile ..) => .isTrue trivial
  | (_, .moveFile ..) => inferInstanceAs (Decidable (_ → _))

theorem committed_of_step {call : Outside × Call} {u : Table} (h : step t call = some u) :
    Committed call.1 t call.2 u ∨
      u = t ∧ ∃ cleanup p fileId, call.2 = .deleteFile cleanup p fileId := by
  obtain ⟨out, call⟩ := call
  rcases run_cases out t call with ⟨e, heq⟩ | hcommitted
  · cases call with
    | createFile p rawPath isDir =>
        rw [step, heq] at h
        cases h
    | moveFile p fileId rawPath =>
        rw [step, heq] at h
        cases h
    | deleteFile cleanup p fileId =>
        simp only [step, heq, Option.some.injEq] at h
        exact .inr ⟨h.symm, _, _, _, rfl⟩
  · have hu : (call.run out t).2 = u := by
      cases call with
      | deleteFile cleanup p fileId => exact Option.some.inj h
      | createFile p rawPath isDir =>
          obtain ⟨_, -, hu⟩ := Option.map_eq_some_iff.mp h
          exact hu
      | moveFile p fileId rawPath =>
          obtain ⟨_, -, hu⟩ := Option.map_eq_some_iff.mp h
          exact hu
    exact .inl (hu ▸ hcommitted)

theorem valid_step {call : Outside × Call} {u : Table} (h : EveryPath Valid projectId t)
    (hstep : step t call = some u) :
    EveryPath Valid projectId u ↔ FitsBelow projectId t call := by
  obtain ⟨out, call⟩ := call
  rcases committed_of_step hstep with hcommitted | ⟨rfl, cleanup, p, fileId, rfl⟩
  · cases hcommitted with
    | createFile hpath hok =>
        exact iff_of_true (everyPath_createBody Valid.above h hpath hok) trivial
    | moveFile hpath hok =>
        rw [everyPath_moveBody Valid.above h hpath hok, FitsBelow]
        refine imp_congr_right fun _ => ?_
        refine forall₂_congr fun file _ => forall₃_congr fun _ _ _ => forall₂_congr fun row hrow =>
          forall₂_congr fun hrp hbelow => ?_
        exact valid_replacePathPrefix (h row hrow hrp) hpath hbelow
    | deleteFile hok => exact iff_of_true (everyPath_deleteBody h hok) trivial
  · exact iff_of_true h trivial

/-- All along a run from an empty project every stored path obeys the rules just when every
directory move leaves its descendants room under both bounds. -/
theorem stored_valid_iff_fits {u : Table} {calls : List (Outside × Call)}
    (hempty : ∀ row ∈ t.rows, row.projectId ≠ projectId) (hrun : run step t calls = some u) :
    (∀ pre v, pre <+: calls → run step t pre = some v → EveryPath Valid projectId v) ↔
      Meets step (FitsBelow projectId) t calls :=
  forall_prefix_iff_meets (fun _ _ _ h hstep => valid_step h hstep)
    (fun row hrow hrp => absurd hrp (hempty row hrow)) hrun

def emptyTable : Table := ⟨[], List.nodup_nil, List.nodup_nil⟩

/-- A file in a directory, and the directory renamed. -/
def rename (newPath : String) : List (Outside × Call) :=
  [(plainOutside, .createFile "p" "src/main.py" false),
    (plainOutside, .moveFile "p" "id:src" newPath)]

theorem stored_valid_iff_fits_rename : ∃ u, run step emptyTable (rename "lib/app") = some u ∧
    u.rows.map File.path = ["lib/app", "lib/app/main.py", "lib"] ∧ EveryPath Valid "p" u := by
  have hpaths : (run step emptyTable (rename "lib/app")).map (fun u => u.rows.map File.path) =
      some ["lib/app", "lib/app/main.py", "lib"] := by
    decide +kernel
  have hfits : (run step emptyTable ((rename "lib/app").take 1)).all (fun v =>
      (rename "lib/app").tail.all fun call => decide (FitsBelow "p" v call)) = true := by
    decide +kernel
  obtain ⟨u, hrun, hu⟩ := Option.map_eq_some_iff.mp hpaths
  refine ⟨u, hrun, hu, (stored_valid_iff_fits (by decide) hrun).mpr ?_ _ u List.prefix_rfl hrun⟩
  refine ⟨trivial, fun v hv => ⟨?_, fun _ _ => trivial⟩⟩
  have hone : run step emptyTable ((rename "lib/app").take 1) = some v :=
    run_cons_eq_some.mpr ⟨v, hv, rfl⟩
  rw [hone] at hfits
  simpa [rename] using hfits

/-- The most levels a path may have. -/
def deepest : String := "/".intercalate (List.replicate MAX_DEPTH "x")

/-- The directory may be put that deep, and the file in it ends up one level deeper. -/
theorem descendant_oversteps_depth :
    Valid deepest ∧ ∃ u, run step emptyTable (rename deepest) = some u ∧
      ¬ EveryPath Valid "p" u := by
  have hbad : (run step emptyTable (rename deepest)).map
      (fun u => decide (EveryPath Valid "p" u)) = some false := by
    decide +kernel
  obtain ⟨u, hrun, hu⟩ := Option.map_eq_some_iff.mp hbad
  exact ⟨by decide +kernel, u, hrun, of_decide_eq_false hu⟩

end CollabIDE.Files.Validity
