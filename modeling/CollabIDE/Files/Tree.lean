import CollabIDE.Files.ServiceSpec
/-!
# The flat rows stay a tree

A project's rows are closed when every directory above a path is itself a row.
Run one at a time the service keeps them closed, a move rewrites exactly the
moved subtree, and its row-by-row updates never collide.
-/

namespace CollabIDE.Files.Tree

open CollabIDE.Files.FileTable CollabIDE.Files.Paths CollabIDE.Files.Transaction
open CollabIDE.Files.Service CollabIDE.Files.ServiceSpec CollabIDE.Http.Errors

variable {out : Outside} {projectId : String} {t u v : Table}

/-- A directory row of the project at a path. -/
def HasDir (projectId : String) (rows : List File) (path : String) : Prop :=
  ∃ d ∈ rows, d.projectId = projectId ∧ d.path = path ∧ d.isDir = true

/-- Every proper ancestor of every path is a row with `isDir`; that paths are unique is part of
the table. -/
def Closed (projectId : String) (t : Table) : Prop :=
  ∀ row ∈ t.rows, row.projectId = projectId →
    ∀ a, isDescendantOf row.path a = true → HasDir projectId t.rows a

instance (projectId : String) (rows : List File) (path : String) :
    Decidable (HasDir projectId rows path) :=
  inferInstanceAs (Decidable (∃ d ∈ rows, _))

/-- The ancestors to look at are those the service computes. -/
theorem closed_iff_ancestorPaths :
    Closed projectId t ↔ ∀ row ∈ t.rows, row.projectId = projectId →
      ∀ a ∈ ancestorPaths row.path, HasDir projectId t.rows a := by
  simp only [Closed, mem_ancestorPaths]

instance (projectId : String) (t : Table) : Decidable (Closed projectId t) :=
  decidable_of_iff _ closed_iff_ancestorPaths.symm

theorem HasDir.mono {rows rows' : List File} {path : String} (h : HasDir projectId rows path)
    (hrows : ∀ row ∈ rows, row.projectId = projectId → row ∈ rows') :
    HasDir projectId rows' path := by
  obtain ⟨d, hd, hproject, hrest⟩ := h
  exact ⟨d, hrows d hd hproject, hproject, hrest⟩

theorem Closed.congr (h : Closed projectId t)
    (hrows : ∀ row, row.projectId = projectId → (row ∈ u.rows ↔ row ∈ t.rows)) :
    Closed projectId u := by
  intro row hrow hproject a ha
  exact (h row ((hrows row hproject).mp hrow) hproject a ha).mono fun d hd hp =>
    (hrows d hp).mpr hd

/-- What a path needs above it: with the missing directories created and the others checked,
everything above it is a directory. -/
theorem hasDir_of_checked (out : Outside) {path a : String} {rows : List File}
    (hdirs : ∀ b ∈ ancestorPaths path, ∀ d, FileTable.findUnique t projectId b = some d →
      d.isDir = true)
    (hfound : ∀ d ∈ t.rows, d.projectId = projectId → isDescendantOf path d.path = true →
      d ∈ rows)
    (hnew : ∀ d ∈ newDirs out t projectId (ancestorPaths path), d ∈ rows)
    (ha : isDescendantOf path a = true) : HasDir projectId rows a := by
  have hmem := mem_ancestorPaths.mpr ha
  cases hfind : FileTable.findUnique t projectId a with
  | none =>
      exact ⟨_, hnew _ (mem_newDirs.mpr ⟨a, hmem, hfind, rfl⟩), rfl, rfl, rfl⟩
  | some d =>
      obtain ⟨hd, hproject, hpath⟩ := findUnique_eq_some.mp hfind
      exact ⟨d, hfound d hd hproject (hpath.symm ▸ ha), hproject, hpath, hdirs a hmem d hfind⟩

/-! ## Creating -/

theorem closed_of_createBody {p path : String} {isDir : Bool} {row : File}
    (h : Closed projectId t) (hok : (createBody p path isDir).exec out t = .ok (row, v)) :
    Closed projectId v := by
  obtain ⟨-, hdirs, rfl, hrows⟩ := createBody_eq_ok hok
  by_cases hp : p = projectId
  · subst hp
    have habove : ∀ a, isDescendantOf path a = true → HasDir p v.rows a := fun a ha =>
      hasDir_of_checked out hdirs (fun d hd _ _ => by simp [hrows, hd])
        (fun d hd => by simp [hrows, hd]) ha
    intro r hr hproject a ha
    rw [hrows, List.mem_append, List.mem_append, List.mem_singleton] at hr
    rcases hr with (hr | hr) | rfl
    · exact (h r hr hproject a ha).mono fun d hd _ => by simp [hrows, hd]
    · obtain ⟨b, hb, -, rfl⟩ := mem_newDirs.mp hr
      exact habove a (isDescendantOf_trans (mem_ancestorPaths.mp hb) ha)
    · exact habove a ha
  · refine h.congr fun r hr => ?_
    have hnot : ∀ a isDir, r ≠ out.newRow p a isDir := by
      rintro a isDir rfl
      exact hp hr
    simp only [hrows, List.mem_append, List.mem_singleton, hnot, or_false, or_iff_left_iff_imp]
    intro hmem
    obtain ⟨a, -, -, heq⟩ := mem_newDirs.mp hmem
    exact absurd heq (hnot a true)

/-! ## Moving -/

/-- The row a move of `file` makes of each row. -/
def relocate (out : Outside) (file : File) (newPath : String) (row : File) : File :=
  if row.id = file.id then row.setPath newPath (out.now newPath)
  else if file.isDir = true ∧ row.projectId = file.projectId ∧
      isDescendantOf row.path file.path = true then
    row.setPath (replacePathPrefix row.path file.path newPath)
      (out.now (replacePathPrefix row.path file.path newPath))
  else row

/-- The row itself, or a descendant of it if it is a directory: what a move or a delete takes
along. -/
def Moves (file row : File) : Prop :=
  row.id = file.id ∨
    file.isDir = true ∧ row.projectId = file.projectId ∧ isDescendantOf row.path file.path = true

@[simp] theorem relocate_projectId (file : File) (newPath : String) (row : File) :
    (relocate out file newPath row).projectId = row.projectId := by
  unfold relocate
  split_ifs <;> rfl

@[simp] theorem relocate_isDir (file : File) (newPath : String) (row : File) :
    (relocate out file newPath row).isDir = row.isDir := by
  unfold relocate
  split_ifs <;> rfl

theorem relocate_of_not_moves {file row : File} (newPath : String) (h : ¬ Moves file row) :
    relocate out file newPath row = row := by
  rw [Moves, not_or] at h
  rw [relocate, if_neg h.1, if_neg h.2]

theorem relocate_of_moves {file row : File} (newPath : String) (h : Moves file row) :
    relocate out file newPath row =
      row.setPath (target file newPath row) (out.now (target file newPath row)) := by
  unfold relocate target
  split_ifs with hid hdesc
  · rfl
  · rfl
  · exact absurd (h.resolve_left hid) hdesc

section Move

variable {file : File} {newPath : String} {all : List File}

theorem mem_moving (hfile : file ∈ t.rows) (hproject : file.projectId = projectId)
    (hall : all.Perm (FileTable.findMany t projectId)) {row : File} :
    row ∈ moving file all ↔ row ∈ t.rows ∧ row.projectId = projectId ∧ Moves file row := by
  have hmem : ∀ row, row ∈ all ↔ row ∈ t.rows ∧ row.projectId = projectId := fun row =>
    hall.mem_iff.trans mem_findMany
  unfold moving Moves
  split_ifs with hdir
  · simp only [List.mem_filter, hmem, decide_eq_true_eq, hdir, true_and, and_assoc]
    refine and_congr_right fun _ => and_congr_right fun hp => ?_
    rw [hp, hproject, eq_self, true_and]
  · rw [List.mem_singleton]
    constructor
    · rintro rfl
      exact ⟨hfile, hproject, .inl rfl⟩
    · exact fun h => Table.eq_of_id h.1 hfile (h.2.2.resolve_right fun hd => hdir hd.1)

theorem nodup_moving (file : File) (hall : all.Perm (FileTable.findMany t projectId)) :
    ((moving file all).map File.id).Nodup := by
  have hids : (all.map File.id).Nodup :=
    (hall.map File.id).nodup_iff.mpr (t.ids.sublist (List.filter_sublist.map _))
  unfold moving
  split_ifs
  · exact hids.sublist (List.filter_sublist.map _)
  · exact List.nodup_singleton _

theorem map_fst_targets :
    (targets file newPath all).map Prod.fst = (moving file all).map File.id := by
  rw [targets, List.map_map]
  rfl

/-- On the rows of the table the updates are the relocation. -/
theorem applyTargets_eq_relocate (hfile : file ∈ t.rows) (hproject : file.projectId = projectId)
    (hall : all.Perm (FileTable.findMany t projectId)) {row : File} (hrow : row ∈ t.rows) :
    applyTargets out (targets file newPath all) row = relocate out file newPath row := by
  by_cases hmoves : Moves file row
  · have hrp : row.projectId = projectId := by
      rcases hmoves with hid | ⟨-, hp, -⟩
      · rw [Table.eq_of_id hrow hfile hid, hproject]
      · rw [hp, hproject]
    have hmem := (mem_moving hfile hproject hall).mpr ⟨hrow, hrp, hmoves⟩
    rw [relocate_of_moves newPath hmoves]
    exact applyTargets_of_mem (map_fst_targets ▸ nodup_moving file hall)
      (List.mem_map.mpr ⟨row, hmem, rfl⟩)
  · rw [relocate_of_not_moves newPath hmoves]
    refine applyTargets_of_not_mem fun hmem => hmoves ?_
    rw [map_fst_targets, List.mem_map] at hmem
    obtain ⟨other, hother, hid⟩ := hmem
    obtain ⟨ho, -, hm⟩ := (mem_moving hfile hproject hall).mp hother
    exact Table.eq_of_id ho hrow hid ▸ hm

variable (hfile : file ∈ t.rows) (hproject : file.projectId = projectId)
  (hall : all.Perm (FileTable.findMany t projectId))
  (had : Admitted t projectId newPath file all)

include hfile hproject had in
theorem not_moves_of_above {d : File} (hd : d ∈ t.rows) (hdp : d.projectId = projectId)
    (habove : isDescendantOf newPath d.path = true) : ¬ Moves file d := by
  rintro (hid | ⟨hdir, -, hbelow⟩)
  · obtain rfl := Table.eq_of_id hd hfile hid
    have hmem := mem_ancestorPaths.mpr habove
    exact had.outside ⟨had.dirs _ hmem d (findUnique_eq_some.mpr ⟨hd, hdp, rfl⟩), habove⟩
  · exact had.outside ⟨hdir, isDescendantOf_trans habove hbelow⟩

theorem target_cases (newPath : String) {row : File} (hmoves : Moves file row) :
    target file newPath row = newPath ∨
      file.isDir = true ∧ isDescendantOf row.path file.path = true ∧
        target file newPath row = replacePathPrefix row.path file.path newPath ∧
        isDescendantOf (target file newPath row) newPath = true := by
  unfold target
  split_ifs with hid
  · exact .inl rfl
  · obtain ⟨hdir, -, hbelow⟩ := hmoves.resolve_left hid
    exact .inr ⟨hdir, hbelow, rfl, isDescendantOf_replacePathPrefix hbelow newPath⟩

theorem target_ne_above {row : File} {b : String} (hmoves : Moves file row)
    (hb : isDescendantOf newPath b = true) : b ≠ target file newPath row := by
  rintro rfl
  rcases target_cases newPath hmoves with heq | ⟨-, -, -, hbelow⟩
  · rw [heq] at hb
    exact not_isDescendantOf_self _ hb
  · exact isDescendantOf_asymm hb hbelow

theorem moves_path {row : File} (hrow : row ∈ t.rows) (hfile : file ∈ t.rows)
    (hmoves : Moves file row) :
    row.path = file.path ∨ file.isDir = true ∧ isDescendantOf row.path file.path = true := by
  rcases hmoves with hid | ⟨hdir, -, hbelow⟩
  · exact .inl (by rw [Table.eq_of_id hrow hfile hid])
  · exact .inr ⟨hdir, hbelow⟩

include hfile hproject hall had in
theorem destination_vacant {row : File} (hrow : row ∈ t.rows)
    (hrp : row.projectId = projectId) : row.path ≠ newPath := by
  rintro rfl
  have hfileMoving : file ∈ moving file all :=
    (mem_moving hfile hproject hall).mpr ⟨hfile, hproject, .inl rfl⟩
  have hentry : (file.id, row.path) ∈ targets file row.path all :=
    List.mem_map.mpr ⟨file, hfileMoving, by simp [target]⟩
  refine had.vacant _ hentry (List.mem_map.mpr ⟨row, List.mem_filter.mpr ⟨?_, ?_⟩, rfl⟩)
  · exact hall.mem_iff.mpr (mem_findMany.mpr ⟨hrow, hrp⟩)
  · rw [decide_eq_true_eq]
    intro hmem
    obtain ⟨other, hother, hid⟩ := List.mem_map.mp hmem
    obtain ⟨ho, -, hmoves⟩ := (mem_moving hfile hproject hall).mp hother
    obtain rfl := Table.eq_of_id ho hrow hid
    rcases moves_path hrow hfile hmoves with heq | ⟨hdir, hbelow⟩
    · exact had.ne heq.symm
    · exact had.outside ⟨hdir, hbelow⟩

include hfile hproject hall had in
theorem target_vacant (hclosed : Closed projectId t) {row m : File} (hrow : row ∈ t.rows)
    (hrp : row.projectId = projectId) (hm : m ∈ moving file all) :
    row.path ≠ target file newPath m := by
  obtain ⟨hmt, hmp, hmoves⟩ := (mem_moving hfile hproject hall).mp hm
  have hvacant : ∀ r ∈ t.rows, r.projectId = projectId → r.path ≠ newPath := fun r hr hp =>
    destination_vacant hfile hproject hall had hr hp
  rcases target_cases newPath hmoves with heq | ⟨-, -, -, hbelow⟩
  · rw [heq]
    exact hvacant row hrow hrp
  · intro heq
    obtain ⟨d, hd, hdp, hpath, -⟩ := hclosed row hrow hrp newPath (heq ▸ hbelow)
    exact hvacant d hd hdp hpath

include hfile hproject hall in
theorem nodup_snd_targets : ((targets file newPath all).map Prod.snd).Nodup := by
  rw [targets, List.map_map]
  refine ((List.Nodup.of_map _ (nodup_moving file hall))).map_on fun a ha b hb heq => ?_
  obtain ⟨hat, hap, hamoves⟩ := (mem_moving hfile hproject hall).mp ha
  obtain ⟨hbt, hbp, hbmoves⟩ := (mem_moving hfile hproject hall).mp hb
  simp only [Function.comp_apply] at heq
  have hself : ∀ m, m ∈ t.rows → Moves file m → target file newPath m = newPath →
      m.id = file.id := by
    intro m hm hmoves hm'
    by_contra hid
    obtain ⟨-, -, hbelow⟩ := hmoves.resolve_left hid
    have hlt := isDescendantOf_replacePathPrefix hbelow newPath
    rw [target, if_neg hid] at hm'
    rw [hm'] at hlt
    exact not_isDescendantOf_self _ hlt
  rcases target_cases newPath hamoves with ha' | ⟨-, habelow, haeq, halt⟩
  · exact Table.eq_of_id hat hbt ((hself a hat hamoves ha').trans
      (hself b hbt hbmoves (heq ▸ ha')).symm)
  · rcases target_cases newPath hbmoves with hb' | ⟨-, hbbelow, hbeq, -⟩
    · rw [heq, hb'] at halt
      exact absurd halt (not_isDescendantOf_self _)
    · rw [haeq, hbeq] at heq
      exact Table.eq_of_key hat hbt (Prod.ext (hap.trans hbp.symm)
        (replacePathPrefix_injOn habelow hbbelow heq))

end Move

theorem moveBody_rows {p fileId newPath : String} {row : File}
    (hok : (moveBody p fileId newPath).exec out t = .ok (row, v)) :
    ∃ file ∈ t.rows, file.id = fileId ∧ file.projectId = p ∧ row = { file with path := newPath } ∧
      ((file.path = newPath ∧ v = t) ∨
        Admitted t p newPath file (out.order (FileTable.findMany t p)) ∧
          v.rows = t.rows.map (relocate out file newPath) ++
            newDirs out t p (ancestorPaths newPath)) := by
  obtain ⟨file, hfind, hrow, hmoved⟩ := moveBody_eq_ok hok
  obtain ⟨hfile, hid, hproject⟩ := findFirst_eq_some hfind
  refine ⟨file, hfile, hid, hproject, hrow, hmoved.imp_right fun ⟨had, hrows⟩ => ⟨had, ?_⟩⟩
  have hall := out.order_perm (FileTable.findMany t p)
  have hids : ((t.rows ++ newDirs out t p (ancestorPaths newPath)).map File.id).Nodup := by
    have hv := v.ids
    rw [hrows, List.map_map] at hv
    exact (List.map_congr_left fun r _ => applyTargets_id _ r) ▸ hv
  rw [hrows, List.map_append]
  apply congrArg₂ (· ++ ·)
  · exact List.map_congr_left fun r hr => applyTargets_eq_relocate hfile hproject hall hr
  · refine (List.map_congr_left fun r hr => ?_).trans (List.map_id _)
    have hfresh : r.id ∉ t.rows.map File.id := by
      rw [List.map_append] at hids
      exact fun hmem => List.disjoint_of_nodup_append hids hmem (List.mem_map_of_mem hr)
    refine applyTargets_of_not_mem fun hmem => hfresh ?_
    rw [map_fst_targets, List.mem_map] at hmem
    obtain ⟨m, hm, hid⟩ := hmem
    exact List.mem_map.mpr ⟨m, ((mem_moving hfile hproject hall).mp hm).1, hid⟩

theorem closed_of_moveBody {p fileId newPath : String} {row : File} (h : Closed projectId t)
    (hok : (moveBody p fileId newPath).exec out t = .ok (row, v)) : Closed projectId v := by
  obtain ⟨file, hfile, -, hproject, -, ⟨-, rfl⟩ | ⟨had, hrows⟩⟩ := moveBody_rows hok
  · exact h
  have hmoved : ∀ r ∈ t.rows, relocate out file newPath r ∈ v.rows := fun r hr => by
    rw [hrows]
    exact List.mem_append_left _ (List.mem_map_of_mem hr)
  have hstays : ∀ r ∈ t.rows, ¬ Moves file r → r ∈ v.rows := fun r hr hnot =>
    relocate_of_not_moves newPath hnot ▸ hmoved r hr
  by_cases hp : p = projectId
  · subst hp
    have habove : ∀ a, isDescendantOf newPath a = true → HasDir p v.rows a := fun a ha =>
      hasDir_of_checked out had.dirs
        (fun d hd hdp hbelow => hstays d hd
          (not_moves_of_above hfile hproject had hd hdp hbelow))
        (fun d hd => by rw [hrows]; exact List.mem_append_right _ hd) ha
    intro r hr hrp a ha
    rw [hrows, List.mem_append, List.mem_map] at hr
    rcases hr with ⟨old, hold, rfl⟩ | hr
    · rw [relocate_projectId] at hrp
      by_cases hmoves : Moves file old
      · rw [relocate_of_moves newPath hmoves] at ha
        change isDescendantOf (target file newPath old) a = true at ha
        rcases target_cases newPath hmoves with heq | ⟨hdir, hbelow, heq, -⟩
        · exact habove a (heq ▸ ha)
        · rw [heq, isDescendantOf_replacePathPrefix_iff hbelow] at ha
          rcases ha with ha | rfl | ⟨m, hma, hpm, rfl⟩
          · exact habove a ha
          · -- the destination itself is the moved directory
            refine ⟨_, hmoved file hfile, ?_, ?_, ?_⟩
            · rw [relocate_projectId, hproject]
            · rw [relocate, if_pos rfl]
              rfl
            · rw [relocate_isDir, hdir]
          · -- a directory between the moved one and the row moved along with it
            obtain ⟨d, hd, hdp, rfl, hddir⟩ := h old hold hrp m hpm
            have hdmoves : Moves file d := .inr ⟨hdir, hdp.trans hproject.symm, hma⟩
            have hne : d.id ≠ file.id := fun hid => by
              rw [Table.eq_of_id hd hfile hid] at hma
              exact not_isDescendantOf_self _ hma
            refine ⟨_, hmoved d hd, ?_, ?_, ?_⟩
            · rw [relocate_projectId, hdp]
            · rw [relocate_of_moves newPath hdmoves, target, if_neg hne]
              rfl
            · rw [relocate_isDir, hddir]
      · rw [relocate_of_not_moves newPath hmoves] at ha
        obtain ⟨d, hd, hdp, rfl, hddir⟩ := h old hold hrp a ha
        refine ⟨d, hstays d hd fun hdmoves => hmoves ?_, hdp, rfl, hddir⟩
        -- what lies below a moving row moves too
        rcases hdmoves with hid | ⟨hdir, -, hbelow⟩
        · obtain rfl := Table.eq_of_id hd hfile hid
          exact .inr ⟨hddir, hrp.trans hproject.symm, ha⟩
        · exact .inr ⟨hdir, hrp.trans hproject.symm, isDescendantOf_trans ha hbelow⟩
    · obtain ⟨b, hb, -, rfl⟩ := mem_newDirs.mp hr
      exact habove a (isDescendantOf_trans (mem_ancestorPaths.mp hb) ha)
  · refine h.congr fun r hr => ?_
    have hnot : ∀ old ∈ t.rows, old.projectId = projectId → ¬ Moves file old := by
      rintro old hold hop (hid | ⟨-, hsame, -⟩)
      · exact hp (hproject ▸ Table.eq_of_id hold hfile hid ▸ hop)
      · exact hp (hproject.symm.trans (hsame.symm.trans hop))
    constructor
    · intro hmem
      rw [hrows, List.mem_append, List.mem_map] at hmem
      rcases hmem with ⟨old, hold, rfl⟩ | hmem
      · rw [relocate_projectId] at hr
        rwa [relocate_of_not_moves newPath (hnot old hold hr)]
      · obtain ⟨a, -, -, rfl⟩ := mem_newDirs.mp hmem
        exact absurd hr hp
    · exact fun hold => hstays r hold (hnot r hold hr)

/-- Run alone on a closed table, a move never violates the path index. -/
theorem not_violates_moveBody (out : Outside) (h : Closed projectId t) (fileId newPath : String) :
    ¬ Violates ((moveBody projectId fileId newPath).exec out t) := by
  rw [exec_moveBody]
  cases hfind : FileTable.findFirst t fileId projectId with
  | none => exact fun he => by cases he
  | some file =>
      obtain ⟨hfile, -, hproject⟩ := findFirst_eq_some hfind
      have hall := out.order_perm (FileTable.findMany t projectId)
      have hdecides := decides_move out hall
      dsimp only
      split_ifs with hsame hinside hexists
      · exact fun he => by cases he
      · exact fun he => by cases he
      · exact fun he => by cases he
      · refine not_violates_exec_bind
          (not_violates_parents hdecides (nodup_ancestorPaths newPath) fun _ _ => rfl)
          fun _ w hloop => not_violates_exec_bind ?_ fun _ _ _ he => by cases he
        obtain ⟨hrows, hdirs⟩ := exec_parents_eq_ok hdecides (nodup_ancestorPaths newPath)
          (fun _ _ => rfl) hloop
        have had : Admitted t projectId newPath file (out.order (FileTable.findMany t projectId)) :=
          ⟨hsame, hinside, by simpa using hexists, hdirs⟩
        refine not_violates_updates projectId (nodup_snd_targets hfile hproject hall)
          (fun e he row hrow hid => ?_) fun e he row hrow hrp => ?_
        · obtain ⟨m, hm, rfl⟩ := List.mem_map.mp he
          obtain ⟨hmt, hmp, -⟩ := (mem_moving hfile hproject hall).mp hm
          have hmw : m ∈ w.rows := hrows ▸ List.mem_append_left _ hmt
          rw [Table.eq_of_id hrow hmw hid, hmp]
        · obtain ⟨m, hm, rfl⟩ := List.mem_map.mp he
          rw [hrows, List.mem_append] at hrow
          rcases hrow with hrow | hrow
          · exact target_vacant hfile hproject hall had h hrow hrp hm
          · obtain ⟨b, hb, -, rfl⟩ := mem_newDirs.mp hrow
            exact target_ne_above ((mem_moving hfile hproject hall).mp hm).2.2
              (mem_ancestorPaths.mp hb)

/-! ## Deleting -/

theorem mem_doomed {file : File} {all : List File} (hfile : file ∈ t.rows)
    (hproject : file.projectId = projectId) (hdir : file.isDir = true)
    (hall : all.Perm (FileTable.findMany t projectId)) {row : File} (hrow : row ∈ t.rows) :
    row.id ∈ doomed file all ↔ Moves file row := by
  rw [doomed, List.mem_map]
  constructor
  · rintro ⟨m, hm, hid⟩
    obtain ⟨hm, hdoomed⟩ := List.mem_filter.mp hm
    obtain ⟨hmt, hmp⟩ := mem_findMany.mp (hall.mem_iff.mp hm)
    obtain rfl := Table.eq_of_id hmt hrow hid
    rcases of_decide_eq_true hdoomed with hself | hbelow
    · exact .inl hself
    · exact .inr ⟨hdir, hmp.trans hproject.symm, hbelow⟩
  · intro hmoves
    have hrp : row.projectId = projectId := by
      rcases hmoves with hid | ⟨-, hp, -⟩
      · rw [Table.eq_of_id hrow hfile hid, hproject]
      · rw [hp, hproject]
    refine ⟨row, List.mem_filter.mpr ⟨hall.mem_iff.mpr (mem_findMany.mpr ⟨hrow, hrp⟩), ?_⟩, rfl⟩
    exact decide_eq_true (hmoves.imp_right fun h => h.2.2)

theorem deleteBody_rows {p fileId : String} {ids : List String}
    (hok : (deleteBody p fileId).exec out t = .ok (ids, v)) :
    ∃ file ∈ t.rows, file.id = fileId ∧ file.projectId = p ∧
      ∀ row, row ∈ v.rows ↔ row ∈ t.rows ∧ ¬ Moves file row := by
  obtain ⟨file, hfind, hrows, rfl⟩ := deleteBody_eq_ok hok
  obtain ⟨hfile, hid, hproject⟩ := findFirst_eq_some hfind
  refine ⟨file, hfile, hid, hproject, fun row => ?_⟩
  rw [hrows, List.mem_filter, decide_eq_true_eq]
  refine and_congr_right fun hrow => not_congr ?_
  split_ifs with hdir
  · exact mem_doomed hfile hproject hdir (out.order_perm _) hrow
  · rw [List.mem_singleton]
    exact ⟨.inl, fun h => h.resolve_right fun hd => hdir hd.1⟩

theorem closed_of_deleteBody {p fileId : String} {ids : List String} (h : Closed projectId t)
    (hok : (deleteBody p fileId).exec out t = .ok (ids, v)) : Closed projectId v := by
  obtain ⟨file, hfile, -, hproject, hrows⟩ := deleteBody_rows hok
  intro row hrow hrp a ha
  obtain ⟨hold, hstays⟩ := (hrows row).mp hrow
  obtain ⟨d, hd, hdp, rfl, hddir⟩ := h row hold hrp a ha
  refine ⟨d, (hrows d).mpr ⟨hd, fun hgone => hstays ?_⟩, hdp, rfl, hddir⟩
  -- what lies below a deleted row is deleted too
  rcases hgone with hid | ⟨hdir, hsame, hbelow⟩
  · obtain rfl := Table.eq_of_id hd hfile hid
    exact .inr ⟨hddir, hrp.trans hdp.symm, ha⟩
  · exact .inr ⟨hdir, hrp.trans (hdp.symm.trans hsame), isDescendantOf_trans ha hbelow⟩

/-! ## Calls one at a time -/

inductive Call
  | createFile (projectId rawPath : String) (isDir : Bool)
  | moveFile (projectId fileId rawPath : String)
  | deleteFile (cleanup : List String → Except Failure Unit) (projectId fileId : String)

/-- Whether a call throws, and the table it leaves. -/
def Call.run (out : Outside) (t : Table) : Call → Except Failure Unit × Table
  | .createFile projectId rawPath isDir =>
    let r := Service.createFile out t projectId rawPath isDir
    (r.1.map fun _ => (), r.2)
  | .moveFile projectId fileId rawPath =>
    let r := Service.moveFile out t projectId fileId rawPath
    (r.1.map fun _ => (), r.2)
  | .deleteFile cleanup projectId fileId =>
    let r := Service.deleteFile out cleanup t projectId fileId
    (r.1.map fun _ => (), r.2)

/-- The table after calls run one at a time. -/
def serial (t : Table) (calls : List (Outside × Call)) : Table :=
  calls.foldl (fun s call => (call.2.run call.1 s).2) t

theorem transaction_cases {α : Type} (out : Outside) (body : Tx α) (t : Table) :
    (∃ e, transaction out body t = (.error e, t) ∧ body.exec out t = .error e) ∨
      ∃ a u, transaction out body t = (.ok a, u) ∧ body.exec out t = .ok (a, u) := by
  unfold transaction
  cases body.exec out t with
  | error e => exact .inl ⟨e, rfl, rfl⟩
  | ok r => exact .inr ⟨r.1, r.2, rfl, rfl⟩

theorem withPath_cases {α : Type} (rawPath : String) (t : Table)
    (k : String → Except Failure α × Table) :
    (∃ e, withPath rawPath t k = (.error (.app e), t)) ∨
      ∃ path, assertValidPath (some rawPath) = .ok path ∧ withPath rawPath t k = k path := by
  unfold withPath
  cases assertValidPath (some rawPath) with
  | error e => exact .inl ⟨e, rfl⟩
  | ok path => exact .inr ⟨path, rfl, rfl⟩

/-- What a call that reaches its commit ran: a body on a path that passed the checks. -/
inductive Committed (out : Outside) (t : Table) : Call → Table → Prop
  | createFile {p rawPath : String} {isDir : Bool} {row : File} {u : Table}
      (hpath : assertValidPath (some rawPath) = .ok rawPath)
      (hok : (createBody p rawPath isDir).exec out t = .ok (row, u)) :
      Committed out t (.createFile p rawPath isDir) u
  | moveFile {p fileId rawPath : String} {row : File} {u : Table}
      (hpath : assertValidPath (some rawPath) = .ok rawPath)
      (hok : (moveBody p fileId rawPath).exec out t = .ok (row, u)) :
      Committed out t (.moveFile p fileId rawPath) u
  | deleteFile {cleanup : List String → Except Failure Unit} {p fileId : String}
      {ids : List String} {u : Table} (hok : (deleteBody p fileId).exec out t = .ok (ids, u)) :
      Committed out t (.deleteFile cleanup p fileId) u

theorem assertValidPath_eq_ok {rawPath path : String}
    (h : assertValidPath (some rawPath) = .ok path) : path = rawPath := by
  rw [assertValidPath] at h
  split_ifs at h
  cases hloop : (split rawPath).forM checkSegment with
  | error e =>
      rw [hloop] at h
      cases h
  | ok r =>
      rw [hloop] at h
      cases h
      rfl

theorem run_cases (out : Outside) (t : Table) (call : Call) :
    (∃ e, call.run out t = (.error e, t)) ∨ Committed out t call (call.run out t).2 := by
  cases call with
  | createFile p rawPath isDir =>
      simp only [Call.run, Service.createFile]
      rcases withPath_cases rawPath t fun path => transaction out (createBody p path isDir) t with
        ⟨e, heq⟩ | ⟨path, hpath, heq⟩
      · rw [heq]
        exact .inl ⟨_, rfl⟩
      · rw [heq]
        obtain rfl := assertValidPath_eq_ok hpath
        rcases transaction_cases out (createBody p path isDir) t with
          ⟨e, htx, -⟩ | ⟨row, u, htx, hok⟩
        · rw [htx]
          exact .inl ⟨e, rfl⟩
        · rw [htx]
          exact .inr (.createFile hpath hok)
  | moveFile p fileId rawPath =>
      simp only [Call.run, Service.moveFile]
      rcases withPath_cases rawPath t fun path => transaction out (moveBody p fileId path) t with
        ⟨e, heq⟩ | ⟨path, hpath, heq⟩
      · rw [heq]
        exact .inl ⟨_, rfl⟩
      · rw [heq]
        obtain rfl := assertValidPath_eq_ok hpath
        rcases transaction_cases out (moveBody p fileId path) t with
          ⟨e, htx, -⟩ | ⟨row, u, htx, hok⟩
        · rw [htx]
          exact .inl ⟨e, rfl⟩
        · rw [htx]
          exact .inr (.moveFile hpath hok)
  | deleteFile cleanup p fileId =>
      simp only [Call.run, Service.deleteFile]
      rcases transaction_cases out (deleteBody p fileId) t with ⟨e, htx, -⟩ | ⟨ids, u, htx, hok⟩
      · rw [htx]
        exact .inl ⟨e, rfl⟩
      · rw [htx]
        exact .inr (.deleteFile hok)

theorem closed_run (h : Closed projectId t) (out : Outside) (call : Call) :
    Closed projectId (call.run out t).2 := by
  rcases run_cases out t call with ⟨e, heq⟩ | hcommitted
  · rwa [heq]
  · cases hcommitted with
    | createFile _ hok => exact closed_of_createBody h hok
    | moveFile _ hok => exact closed_of_moveBody h hok
    | deleteFile hok => exact closed_of_deleteBody h hok

theorem closed_serial (h : Closed projectId t) (calls : List (Outside × Call)) :
    Closed projectId (serial t calls) := by
  induction calls generalizing t with
  | nil => exact h
  | cons call calls ih => exact ih (closed_run h call.1 call.2)

/-- `u` is `t` after `file` moved: every row is where `relocate` puts it, and the missing
directories above the destination are added. -/
def Moved (out : Outside) (projectId newPath : String) (file : File) (t u : Table) : Prop :=
  (file.path = newPath ∧ u = t) ∨
    file.path ≠ newPath ∧
      u.rows = t.rows.map (relocate out file newPath) ++
        newDirs out t projectId (ancestorPaths newPath)

theorem moved_of_moveFile {fileId rawPath : String} {row : File}
    (h : moveFile out t projectId fileId rawPath = (.ok row, u)) :
    ∃ file ∈ t.rows, file.id = fileId ∧ file.projectId = projectId ∧
      row = { file with path := rawPath } ∧ Moved out projectId rawPath file t u := by
  rcases withPath_cases rawPath t fun path =>
      transaction out (moveBody projectId fileId path) t with ⟨e, heq⟩ | ⟨path, hpath, heq⟩
  · rw [moveFile, heq] at h
    cases h
  · rw [moveFile, heq] at h
    obtain rfl := assertValidPath_eq_ok hpath
    rcases transaction_cases out (moveBody projectId fileId path) t with
      ⟨e, htx, -⟩ | ⟨row', u', htx, hok⟩
    · rw [htx] at h
      cases h
    · rw [htx] at h
      cases h
      obtain ⟨file, hfile, hid, hproject, hrow, hmoved⟩ := moveBody_rows hok
      exact ⟨file, hfile, hid, hproject, hrow, hmoved.imp_right fun ⟨had, hrows⟩ => ⟨had.ne, hrows⟩⟩

theorem not_violates_moveFile (h : Closed projectId t) (fileId rawPath : String) :
    ¬ Violates (moveFile out t projectId fileId rawPath).1 := by
  rcases withPath_cases rawPath t fun path =>
      transaction out (moveBody projectId fileId path) t with ⟨e, heq⟩ | ⟨path, -, heq⟩
  · rw [moveFile, heq]
    exact fun he => by cases he
  · rw [moveFile, heq]
    have hbody := not_violates_moveBody out h fileId path
    rcases transaction_cases out (moveBody projectId fileId path) t with
      ⟨e, htx, herr⟩ | ⟨row, u, htx, -⟩
    · rw [htx]
      intro he
      cases he
      exact hbody herr
    · rw [htx]
      exact fun he => by cases he

theorem rows_of_deleteFile {cleanup : List String → Except Failure Unit} {fileId : String} {n : Nat}
    (h : deleteFile out cleanup t projectId fileId = (.ok n, u)) :
    ∃ file ∈ t.rows, file.id = fileId ∧ file.projectId = projectId ∧
      ∀ row, row ∈ u.rows ↔ row ∈ t.rows ∧ ¬ Moves file row := by
  rcases transaction_cases out (deleteBody projectId fileId) t with
    ⟨e, htx, -⟩ | ⟨ids, v, htx, hok⟩
  · rw [deleteFile, htx] at h
    cases h
  · rw [deleteFile, htx] at h
    exact (Prod.mk.inj h).2 ▸ deleteBody_rows hok

/-- Calls run one at a time keep the rows a tree, and each of them does exactly what it says. -/
theorem serial_keeps_tree (h : Closed projectId t) (calls : List (Outside × Call)) :
    let s := serial t calls
    Closed projectId s ∧
      (∀ out (call : Call), (∃ e, (call.run out s).1 = .error e) ∧ (call.run out s).2 = s ∨
        Closed projectId (call.run out s).2) ∧
      (∀ out fileId rawPath, ¬ Violates (moveFile out s projectId fileId rawPath).1) ∧
      (∀ out fileId rawPath row u, moveFile out s projectId fileId rawPath = (.ok row, u) →
        ∃ file ∈ s.rows, file.id = fileId ∧ file.projectId = projectId ∧
          row = { file with path := rawPath } ∧ Moved out projectId rawPath file s u) ∧
      ∀ out cleanup fileId n u, deleteFile out cleanup s projectId fileId = (.ok n, u) →
        ∃ file ∈ s.rows, file.id = fileId ∧ file.projectId = projectId ∧
          ∀ row, row ∈ u.rows ↔ row ∈ s.rows ∧ ¬ Moves file row := by
  have hs := closed_serial h calls
  exact ⟨hs, fun out call => .inr (closed_run hs out call),
    fun out fileId rawPath => not_violates_moveFile hs fileId rawPath,
    fun out fileId rawPath row u => moved_of_moveFile,
    fun out cleanup fileId n u => rows_of_deleteFile⟩

/-- Ids spell the path and time stands still. -/
def plainOutside : Outside where
  cuid path := "id:" ++ path
  now _ := 0
  order rows := rows
  order_perm _ := List.Perm.refl _

/-- A directory, a file in it, and a sibling whose name it is a prefix of. -/
def srcTable : Table where
  rows :=
    [⟨"d", "p", "src", "", true, 0, 0⟩, ⟨"m", "p", "src/main.py", "", false, 0, 0⟩,
      ⟨"o", "p", "src2/other.py", "", false, 0, 0⟩, ⟨"s", "p", "src2", "", true, 0, 0⟩]
  ids := by decide
  keys := by decide

theorem serial_keeps_tree_rename :
    let calls := [(plainOutside, Call.moveFile "p" "d" "lib/app")]
    Closed "p" (serial srcTable calls) ∧
      (serial srcTable calls).rows.map File.path =
        ["lib/app", "lib/app/main.py", "src2/other.py", "src2", "lib"] :=
  ⟨(serial_keeps_tree (by decide +kernel) _).1, by decide +kernel⟩

end CollabIDE.Files.Tree
