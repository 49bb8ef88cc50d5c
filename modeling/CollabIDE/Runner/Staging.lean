import CollabIDE.Files.Validity
import CollabIDE.Lib.PosixPath
import CollabIDE.Shared.Languages
/-!
# Staging the files of a run

What `listFilesForRun` reads on the server, `stageFiles` writes below the
staging directory of the runner.  The stored paths have proper segments only,
so resolving one below that directory appends it, and the stored tree is a
tree on the disk.
-/

namespace CollabIDE.Runner.Staging

open CollabIDE.Files.FileTable CollabIDE.Files.Paths CollabIDE.Files.Transaction
open CollabIDE.Files.Tree CollabIDE.Files.Validity CollabIDE.Lib.PosixPath
open CollabIDE.Shared.Languages

/-- `file.findMany` of the project's rows that are no directories. -/
def listFilesForRun (out : Outside) (t : Table) (projectId : String) : List RunFile :=
  (out.order ((Files.FileTable.findMany t projectId).filter fun row => row.isDir = false)).map
    fun row => ⟨row.path, row.content⟩

/-- The calls of `node:fs/promises`. -/
inductive DiskCall
  /-- With `recursive: true`. -/
  | mkdir (path : String)
  | writeFile (path content : String)
  deriving DecidableEq

/-- How a call comes out, after the calls made before it. -/
abbrev Disk := List DiskCall → DiskCall → Except String Unit

inductive StageError
  /-- What `stageFiles` itself throws. -/
  | escapes (message : String)
  | disk (error : String)

/-- `path.resolve`. -/
def pathResolve (cwd : String) (paths : List String) : String :=
  String.ofList (resolve cwd.toList (paths.map String.toList))

/-- `path.dirname`, of an absolute path. -/
def dirname (p : String) : String :=
  match parentPath p with
  | some directory => if directory = "" then "/" else directory
  | none => "."

def destination (cwd stagingDir : String) (file : RunFile) : String :=
  pathResolve cwd [stagingDir, file.path]

/-- The calls made so far, and how the staging stands. -/
abbrev Staged := List DiskCall × Except StageError Unit

/-- One awaited call. -/
def Staged.await (disk : Disk) (staged : Staged) (call : DiskCall) : Staged :=
  match staged with
  | (made, .ok ()) => (made ++ [call], (disk made call).mapError .disk)
  | failed => failed

/-- One round of the loop of `stageFiles`. -/
def stageFile (cwd : String) (disk : Disk) (stagingDir : String) (staged : Staged)
    (file : RunFile) : Staged :=
  let destination := destination cwd stagingDir file
  match staged with
  | (made, .ok ()) =>
    if destination ≠ stagingDir ∧ isDescendantOf destination stagingDir = false then
      (made, .error (.escapes s!"file path escapes the workspace: {file.path}"))
    else
      (staged.await disk (.mkdir (dirname destination))).await disk
        (.writeFile destination file.content)
  | failed => failed

def stageFiles (cwd : String) (disk : Disk) (files : List RunFile) (stagingDir : String) :
    Staged :=
  files.foldl (stageFile cwd disk stagingDir) ([], .ok ())

/-! ## Stored paths below the staging directory -/

section Resolve

variable {cwd stagingDir : String}

/-- The segment rules leave `path.resolve` nothing to work off. -/
theorem clean_of_segmented {path : String} (h : Segmented path) : Clean path.toList := by
  intro s hs
  obtain ⟨hempty, hdots, -⟩ := checkSegment_eq_ok.mp (h _ (List.mem_map_of_mem hs)).checked
  obtain ⟨hdot, hdotdot⟩ := not_or.mp hdots
  refine ⟨?_, ?_, ?_⟩
  · rintro rfl
    exact hempty rfl
  · rintro rfl
    exact hdot rfl
  · rintro rfl
    exact hdotdot rfl

theorem pathResolve_eq (hdir : pathResolve cwd [stagingDir] = stagingDir) (hroot : stagingDir ≠ "/")
    {path : String} (h : Segmented path) :
    pathResolve cwd [stagingDir, path] = stagingDir ++ "/" ++ path := by
  have hself : resolve cwd.toList [stagingDir.toList] = stagingDir.toList := by
    have hlist := congrArg String.toList hdir
    rwa [pathResolve, String.toList_ofList] at hlist
  have hslash : stagingDir.toList ≠ ['/'] := fun heq => hroot (String.toList_inj.mp heq)
  obtain ⟨rest, hrest, hclean⟩ := clean_of_resolve hself hslash
  rw [← String.toList_inj, pathResolve, String.toList_ofList, List.map_cons, List.map_cons,
    List.map_nil, hrest, resolve_clean _ hclean (clean_of_segmented h)]
  simp [hrest]

theorem isDescendantOf_append (directory path : String) :
    isDescendantOf (directory ++ "/" ++ path) directory = true := by
  rw [isDescendantOf_iff]
  simp [Lib.PathPrefix.Below]

theorem isDescendantOf_append_append (directory p q : String) :
    isDescendantOf (directory ++ "/" ++ p) (directory ++ "/" ++ q) = isDescendantOf p q := by
  rw [Bool.eq_iff_iff, isDescendantOf_iff, isDescendantOf_iff]
  simp [Lib.PathPrefix.Below, List.prefix_append_right_inj]

/-! ## The calls -/

/-- What is asked of the disk for a file: its directory, then its content. -/
def writes (stagingDir : String) (file : RunFile) : List DiskCall :=
  [.mkdir (dirname (stagingDir ++ "/" ++ file.path)),
    .writeFile (stagingDir ++ "/" ++ file.path) file.content]

/-- A file with proper segments only does not escape: its two calls are made. -/
theorem stageFile_eq (disk : Disk) (hdir : pathResolve cwd [stagingDir] = stagingDir)
    (hroot : stagingDir ≠ "/") {file : RunFile} (h : Segmented file.path) (staged : Staged) :
    stageFile cwd disk stagingDir staged file =
      (writes stagingDir file).foldl (Staged.await disk) staged := by
  have hplace : destination cwd stagingDir file = stagingDir ++ "/" ++ file.path :=
    pathResolve_eq hdir hroot h
  have hinside : ¬ (destination cwd stagingDir file ≠ stagingDir ∧
      isDescendantOf (destination cwd stagingDir file) stagingDir = false) := by
    rintro ⟨-, houtside⟩
    rw [hplace, isDescendantOf_append] at houtside
    cases houtside
  obtain ⟨made, result⟩ := staged
  cases result with
  | error e => rfl
  | ok =>
      rw [hplace] at hinside
      simp only [stageFile, hplace, if_neg hinside]
      rfl

theorem stageFiles_eq (disk : Disk) (hdir : pathResolve cwd [stagingDir] = stagingDir)
    (hroot : stagingDir ≠ "/") {files : List RunFile} (h : ∀ file ∈ files, Segmented file.path) :
    stageFiles cwd disk files stagingDir =
      (files.flatMap (writes stagingDir)).foldl (Staged.await disk) ([], .ok ()) := by
  rw [List.foldl_flatMap]
  exact List.foldl_ext _ _ _ fun staged file hfile => stageFile_eq disk hdir hroot (h file hfile)
    staged

theorem foldl_await_error (disk : Disk) (made : List DiskCall) (e : StageError)
    (calls : List DiskCall) :
    calls.foldl (Staged.await disk) (made, .error e) = (made, .error e) := by
  induction calls with
  | nil => rfl
  | cons call calls ih => exact ih

theorem foldl_await (disk : Disk) (calls made : List DiskCall) :
    calls.foldl (Staged.await disk) (made, .ok ()) = (made ++ calls, .ok ()) ∨
      ∃ done call rest message, calls = done ++ call :: rest ∧
        disk (made ++ done) call = .error message ∧
        calls.foldl (Staged.await disk) (made, .ok ()) =
          (made ++ done ++ [call], .error (.disk message)) := by
  induction calls generalizing made with
  | nil => exact .inl (by simp)
  | cons call calls ih =>
      rw [List.foldl_cons, Staged.await]
      cases hcall : disk made call with
      | error message =>
          refine .inr ⟨[], call, calls, message, rfl, by rw [List.append_nil, hcall], ?_⟩
          rw [List.append_nil]
          exact foldl_await_error disk _ _ calls
      | ok answer =>
          obtain hall | ⟨done, failed, rest, message, hcalls, hfails, hresult⟩ :=
            ih (made ++ [call])
          · exact .inl (hall.trans (by rw [List.append_assoc, List.singleton_append]))
          · refine .inr ⟨call :: done, failed, rest, message, by rw [hcalls, List.cons_append], ?_⟩
            rw [List.append_cons made call done]
            exact ⟨hfails, hresult⟩

end Resolve

/-! ## The files of a project -/

section Files

variable {out : Outside} {t : Table} {projectId : String}

theorem mem_listFilesForRun {file : RunFile} :
    file ∈ listFilesForRun out t projectId ↔
      ∃ row ∈ t.rows, row.projectId = projectId ∧ row.isDir = false ∧
        ⟨row.path, row.content⟩ = file := by
  simp only [listFilesForRun, List.mem_map, (out.order_perm _).mem_iff, List.mem_filter,
    mem_findMany, decide_eq_true_eq, and_assoc]

theorem nodup_listFilesForRun (out : Outside) (t : Table) (projectId : String) :
    ((listFilesForRun out t projectId).map RunFile.path).Nodup := by
  have hrows : ((Files.FileTable.findMany t projectId).filter fun row => row.isDir = false).Nodup :=
    ((List.Nodup.of_map _ t.ids).filter _).filter _
  rw [listFilesForRun, List.map_map]
  refine ((out.order_perm _).nodup_iff.mpr hrows).map_on fun a ha b hb hpath => ?_
  obtain ⟨ha, hap⟩ := mem_findMany.mp (List.mem_of_mem_filter ((out.order_perm _).mem_iff.mp ha))
  obtain ⟨hb, hbp⟩ := mem_findMany.mp (List.mem_of_mem_filter ((out.order_perm _).mem_iff.mp hb))
  exact Table.eq_of_key ha hb (Prod.ext (hap.trans hbp.symm) hpath)

/-- No file of the project is a directory above another. -/
theorem not_isDescendantOf_file (h : Closed projectId t) {file other : RunFile}
    (hfile : file ∈ listFilesForRun out t projectId)
    (hother : other ∈ listFilesForRun out t projectId) :
    isDescendantOf other.path file.path = false := by
  obtain ⟨row, hrow, hp, hdir, rfl⟩ := mem_listFilesForRun.mp hfile
  obtain ⟨row', hrow', hp', -, rfl⟩ := mem_listFilesForRun.mp hother
  refine Bool.eq_false_iff.mpr fun hbelow => ?_
  obtain ⟨d, hd, hdp, hpath, hddir⟩ := h row' hrow' hp' row.path hbelow
  obtain rfl := Table.eq_of_key hd hrow (Prod.ext (hdp.trans hp.symm) hpath)
  exact absurd hddir (by simp [hdir])

end Files

/-- What calls run one at a time leave of a project stages in place: no file escapes, the calls
made are each file's directory and content where its path says, all of them or up to one that the
disk fails, and no file is in the way of another. -/
theorem staged_in_place (cwd stagingDir projectId : String) (out : Outside)
    (calls : List (Outside × Call)) (hdir : pathResolve cwd [stagingDir] = stagingDir)
    (hroot : stagingDir ≠ "/") :
    let files := listFilesForRun out (serial emptyTable calls) projectId
    (∀ disk,
      (∀ message, (stageFiles cwd disk files stagingDir).2 ≠ .error (.escapes message)) ∧
      (stageFiles cwd disk files stagingDir = (files.flatMap (writes stagingDir), .ok ()) ∨
        ∃ done call rest message, files.flatMap (writes stagingDir) = done ++ call :: rest ∧
          disk done call = .error message ∧
          stageFiles cwd disk files stagingDir = (done ++ [call], .error (.disk message)))) ∧
      (∀ file ∈ files, destination cwd stagingDir file = stagingDir ++ "/" ++ file.path ∧
        isDescendantOf (destination cwd stagingDir file) stagingDir = true) ∧
      (files.map (destination cwd stagingDir)).Nodup ∧
      ∀ file ∈ files, ∀ other ∈ files,
        isDescendantOf (destination cwd stagingDir other) (destination cwd stagingDir file) =
          false := by
  intro files
  have hclosed : Closed projectId (serial emptyTable calls) :=
    closed_serial (fun row hrow => absurd hrow List.not_mem_nil) calls
  have hstored : EveryPath Segmented projectId (serial emptyTable calls) :=
    segmented_serial (fun row hrow => absurd hrow List.not_mem_nil) calls
  have hsegmented : ∀ file ∈ files, Segmented file.path := by
    intro file hfile
    obtain ⟨row, hrow, hp, -, rfl⟩ := mem_listFilesForRun.mp hfile
    exact hstored row hrow hp
  have hplace : ∀ file ∈ files, destination cwd stagingDir file = stagingDir ++ "/" ++ file.path :=
    fun file hfile => pathResolve_eq hdir hroot (hsegmented file hfile)
  refine ⟨fun disk => ?_, fun file hfile => ?_, ?_, fun file hfile other hother => ?_⟩
  · have hmade := foldl_await disk (files.flatMap (writes stagingDir)) []
    simp only [List.nil_append, ← stageFiles_eq disk hdir hroot hsegmented] at hmade
    refine ⟨fun message hescapes => ?_, hmade⟩
    obtain hall | ⟨done, call, rest, failure, -, -, hfailed⟩ := hmade
    · rw [hall] at hescapes
      cases hescapes
    · rw [hfailed] at hescapes
      cases hescapes
  · refine ⟨hplace file hfile, ?_⟩
    rw [hplace file hfile]
    exact isDescendantOf_append stagingDir file.path
  · have happend : Function.Injective fun path => stagingDir ++ "/" ++ path := fun p q h => by
      simpa using h
    have hpaths := (nodup_listFilesForRun out (serial emptyTable calls) projectId).map happend
    have hdestinations : files.map (destination cwd stagingDir) =
        (files.map RunFile.path).map fun path => stagingDir ++ "/" ++ path := by
      rw [List.map_map]
      exact List.map_congr_left hplace
    rw [hdestinations]
    exact hpaths
  · rw [hplace file hfile, hplace other hother, isDescendantOf_append_append]
    exact not_isDescendantOf_file hclosed hfile hother

/-- A renamed directory with a file in it, on a disk that takes it and on one that is full once
the directory is made. -/
theorem staged_in_place_rename :
    let files := listFilesForRun plainOutside (serial emptyTable (rename "lib/app")) "p"
    let calls := [.mkdir "/tmp/ce-run-a1b2c3/lib/app",
      .writeFile "/tmp/ce-run-a1b2c3/lib/app/main.py" ""]
    let full : Disk := fun made _ => if made = [] then .ok () else .error "ENOSPC"
    files = [⟨"lib/app/main.py", ""⟩] ∧
      stageFiles "/" (fun _ _ => .ok ()) files "/tmp/ce-run-a1b2c3" = (calls, .ok ()) ∧
      ∀ message,
        (stageFiles "/" full files "/tmp/ce-run-a1b2c3").2 ≠ .error (.escapes message) := by
  intro files calls full
  have hfiles : files = [⟨"lib/app/main.py", ""⟩] := by decide +kernel
  have hcalls : files.flatMap (writes "/tmp/ce-run-a1b2c3") = calls := by decide +kernel
  have hplaced := (staged_in_place "/" "/tmp/ce-run-a1b2c3" "p" plainOutside (rename "lib/app")
    (by decide +kernel) (by decide)).1
  refine ⟨hfiles, ?_, (hplaced full).1⟩
  obtain hall | ⟨done, call, rest, message, -, hfails, -⟩ := (hplaced fun _ _ => .ok ()).2
  · exact hcalls ▸ hall
  · cases hfails

end CollabIDE.Runner.Staging
