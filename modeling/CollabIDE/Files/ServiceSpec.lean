import CollabIDE.Files.Service
/-!
# What the transaction bodies do when run alone

One specification for each body, in terms of the rows before and after.
-/

namespace CollabIDE.Files.ServiceSpec

open CollabIDE.Files.FileTable CollabIDE.Files.Paths CollabIDE.Files.Transaction
open CollabIDE.Files.Service CollabIDE.Http.Errors

variable {out : Outside} {projectId : String} {t u v : Table}

/-- The rows created for the directories that are missing. -/
def newDirs (out : Outside) (t : Table) (projectId : String) (paths : List String) : List File :=
  (paths.filter fun a => (FileTable.findUnique t projectId a).isNone).map fun a =>
    out.newRow projectId a true

theorem mem_newDirs {paths : List String} {row : File} :
    row ∈ newDirs out t projectId paths ↔
      ∃ a ∈ paths, FileTable.findUnique t projectId a = none ∧
        row = out.newRow projectId a true := by
  simp only [newDirs, List.mem_map, List.mem_filter, Option.isNone_iff_eq_none]
  constructor
  · rintro ⟨a, ⟨ha, hnone⟩, rfl⟩
    exact ⟨a, ha, hnone, rfl⟩
  · rintro ⟨a, ha, hnone, rfl⟩
    exact ⟨a, ⟨ha, hnone⟩, rfl⟩

/-! ## The loop over the ancestors -/

/-- The outcome the code never expects of a statement: the path index is violated. -/
def Violates {α : Type} (r : Except Failure α) : Prop :=
  r = .error (.prisma (.P2002 .projectId_path))

theorem not_violates_exec_bind {α β : Type} {x : Tx α} {f : α → Tx β}
    (hx : ¬ Violates (x.exec out t))
    (hf : ∀ a w, x.exec out t = .ok (a, w) → ¬ Violates ((f a).exec out w)) :
    ¬ Violates ((x >>= f).exec out t) := by
  rw [exec_bind]
  cases h : x.exec out t with
  | error e =>
      rw [h] at hx
      exact fun he => hx (by cases he; rfl)
  | ok r => exact hf r.1 r.2 h

theorem findUnique_append {p a : String} {rows : List File} (h : u.rows = t.rows ++ rows)
    (hrows : ∀ row ∈ rows, row.projectId = p → row.path ≠ a) :
    FileTable.findUnique u p a = FileTable.findUnique t p a := by
  have hnone : rows.find? (fun row => row.key = (p, a)) = none := by
    rw [List.find?_eq_none]
    intro row hrow
    simpa [File.key] using hrows row hrow
  rw [FileTable.findUnique, h, List.find?_append, hnone, Option.or_none]
  rfl

theorem exec_ensureDirectory_eq_ok {a : String} {row : Option File} {r : Unit}
    (h : (ensureDirectory projectId a row).exec out u = .ok (r, v)) :
    (row = none ∧ FileTable.create u (out.newRow projectId a true) = .ok v) ∨
      ∃ d, row = some d ∧ d.isDir = true ∧ v = u := by
  cases row with
  | none =>
      rw [ensureDirectory, exec_bind_eq_ok] at h
      obtain ⟨row, w, hcreate, hrest⟩ := h
      cases hrest
      exact .inl ⟨rfl, (exec_create_eq_ok.mp hcreate).2⟩
  | some d =>
      rw [ensureDirectory] at h
      split_ifs at h with hdir
      · cases h
        exact .inr ⟨d, rfl, hdir, rfl⟩
      · cases h

theorem not_violates_ensureDirectory {a : String} {row : Option File}
    (h : row = none → FileTable.findUnique u projectId a = none) :
    ¬ Violates ((ensureDirectory projectId a row).exec out u) := by
  cases row with
  | none =>
      refine not_violates_exec_bind (fun he => ?_) fun _ _ _ he => by cases he
      have hfree := create_ne_path (out.newRow projectId a true)
        (findUnique_eq_none.mp (h rfl))
      simp only [Transaction.create, Tx.exec, Statement.run, Violates] at he
      cases hc : FileTable.create u (out.newRow projectId a true) with
      | error e =>
          rw [hc] at he
          cases he
          exact hfree hc
      | ok w =>
          rw [hc] at he
          cases he
  | some d =>
      intro he
      rw [ensureDirectory, Violates] at he
      split_ifs at he <;> cases he

/-- The body of either loop: it decides by what `t` has at the path, as long as the table it runs
on agrees with `t` there. -/
def Decides (out : Outside) (t : Table) (projectId : String) (f : String → Tx Unit) : Prop :=
  ∀ a w, FileTable.findUnique w projectId a = FileTable.findUnique t projectId a →
    (f a).exec out w =
      (ensureDirectory projectId a (FileTable.findUnique t projectId a)).exec out w

theorem exec_parents_eq_ok {f : String → Tx Unit} (hf : Decides out t projectId f)
    {paths : List String} (hnodup : paths.Nodup)
    (hsame : ∀ a ∈ paths, FileTable.findUnique u projectId a = FileTable.findUnique t projectId a)
    {r : Unit} (h : (paths.forM f).exec out u = .ok (r, v)) :
    v.rows = u.rows ++ newDirs out t projectId paths ∧
      ∀ a ∈ paths, ∀ d, FileTable.findUnique t projectId a = some d → d.isDir = true := by
  induction paths generalizing u with
  | nil =>
      cases h
      simp [newDirs]
  | cons a paths ih =>
      change (f a >>= fun _ => paths.forM f).exec out u = _ at h
      rw [exec_bind_eq_ok] at h
      obtain ⟨_, w, hhere, hrest⟩ := h
      rw [hf a u (hsame a List.mem_cons_self)] at hhere
      obtain ⟨ha, hnodup⟩ := List.nodup_cons.mp hnodup
      have hlater := fun b hb => hsame b (List.mem_cons_of_mem _ hb)
      rcases exec_ensureDirectory_eq_ok hhere with ⟨hnone, hcreate⟩ | ⟨d, hsome, hdir, rfl⟩
      · have hw := (create_eq_ok.mp hcreate).1
        have hsame' : ∀ b ∈ paths,
            FileTable.findUnique w projectId b = FileTable.findUnique t projectId b := by
          intro b hb
          rw [← hlater b hb]
          refine findUnique_append hw fun row hrow _ hpath => ha ?_
          rw [List.mem_singleton.mp hrow] at hpath
          exact (show a = b from hpath) ▸ hb
        obtain ⟨hrows, hdirs⟩ := ih hnodup hsame' hrest
        refine ⟨?_, ?_⟩
        · rw [hrows, hw]
          simp [newDirs, hnone]
        · intro b hb d hd
          rcases List.mem_cons.mp hb with rfl | hb
          · rw [hnone] at hd
            cases hd
          · exact hdirs b hb d hd
      · obtain ⟨hrows, hdirs⟩ := ih hnodup hlater hrest
        refine ⟨?_, ?_⟩
        · rw [hrows]
          simp [newDirs, hsome]
        · intro b hb e he
          rcases List.mem_cons.mp hb with rfl | hb
          · rw [hsome] at he
            cases he
            exact hdir
          · exact hdirs b hb e he

theorem not_violates_parents {f : String → Tx Unit} (hf : Decides out t projectId f)
    {paths : List String} (hnodup : paths.Nodup)
    (hsame : ∀ a ∈ paths, FileTable.findUnique u projectId a = FileTable.findUnique t projectId a) :
    ¬ Violates ((paths.forM f).exec out u) := by
  induction paths generalizing u with
  | nil => exact fun he => by cases he
  | cons a paths ih =>
      change ¬ Violates ((f a >>= fun _ => paths.forM f).exec out u)
      obtain ⟨ha, hnodup⟩ := List.nodup_cons.mp hnodup
      have hhere := hf a u (hsame a List.mem_cons_self)
      refine not_violates_exec_bind ?_ fun _ w hw => ih hnodup fun b hb => ?_
      · rw [hhere]
        exact not_violates_ensureDirectory fun h => (hsame a List.mem_cons_self).trans h
      · rw [hhere] at hw
        rw [← hsame b (List.mem_cons_of_mem _ hb)]
        rcases exec_ensureDirectory_eq_ok hw with ⟨-, hcreate⟩ | ⟨_, _, _, rfl⟩
        · refine findUnique_append (create_eq_ok.mp hcreate).1 fun row hrow _ hpath => ha ?_
          rw [List.mem_singleton.mp hrow] at hpath
          exact (show a = b from hpath) ▸ hb
        · rfl

/-- The loop of `createFile` reads the table in every round. -/
theorem decides_create (out : Outside) (t : Table) (projectId : String) :
    Decides out t projectId (fun ancestor => do
      let row ← findUnique projectId ancestor
      ensureDirectory projectId ancestor row) := by
  intro a w hw
  rw [exec_bind, exec_findUnique, ← hw]
  rfl

theorem decides_move (out : Outside) {all : List File}
    (hall : all.Perm (FileTable.findMany t projectId)) :
    Decides out t projectId fun ancestor =>
      ensureDirectory projectId ancestor (all.find? fun row => row.path = ancestor) := by
  intro a w _
  have hmem : ∀ row, row ∈ all ↔ row ∈ t.rows ∧ row.projectId = projectId := fun row =>
    hall.mem_iff.trans mem_findMany
  have hfound : (all.find? fun row => row.path = a) = FileTable.findUnique t projectId a := by
    cases hfind : all.find? fun row => row.path = a with
    | none =>
        refine Eq.symm (findUnique_eq_none.mpr fun row hrow hproject => ?_)
        simpa using List.find?_eq_none.mp hfind row ((hmem row).mpr ⟨hrow, hproject⟩)
    | some row =>
        obtain ⟨hrow, hproject⟩ := (hmem row).mp (List.mem_of_find?_eq_some hfind)
        have hpath : row.path = a := by simpa using List.find?_some hfind
        exact (findUnique_eq_some.mpr ⟨hrow, hproject, hpath⟩).symm
  exact congrArg (fun row => (ensureDirectory projectId a row).exec out w) hfound

/-! ## Creating -/

theorem createBody_eq_ok {path : String} {isDir : Bool} {row : File}
    (h : (createBody projectId path isDir).exec out t = .ok (row, v)) :
    FileTable.findUnique t projectId path = none ∧
      (∀ a ∈ ancestorPaths path, ∀ d, FileTable.findUnique t projectId a = some d →
        d.isDir = true) ∧
      row = out.newRow projectId path isDir ∧
      v.rows = t.rows ++ newDirs out t projectId (ancestorPaths path) ++ [row] := by
  rw [createBody, exec_bind, exec_findUnique] at h
  change Tx.exec out (ite _ _ _) t = _ at h
  split_ifs at h with hsome
  · cases h
  · obtain ⟨_, u, hloop, hcreate⟩ := exec_bind_eq_ok.mp h
    obtain ⟨hrows, hdirs⟩ := exec_parents_eq_ok (decides_create out t projectId)
      (nodup_ancestorPaths path) (fun _ _ => rfl) hloop
    obtain ⟨rfl, hv⟩ := exec_create_eq_ok.mp hcreate
    refine ⟨by simpa using hsome, hdirs, rfl, ?_⟩
    rw [(create_eq_ok.mp hv).1, hrows]

/-! ## Moving -/

/-- What the updates of a move do to one row. -/
def applyTargets (out : Outside) (entries : List (String × String)) (row : File) : File :=
  entries.foldl (fun r entry =>
    if r.id = entry.1 then r.setPath entry.2 (out.now entry.2) else r) row

@[simp] theorem applyTargets_id (entries : List (String × String)) (row : File) :
    (applyTargets out entries row).id = row.id := by
  induction entries generalizing row with
  | nil => rfl
  | cons e es ih =>
      rw [applyTargets, List.foldl_cons]
      refine (ih _).trans ?_
      split_ifs <;> rfl

theorem applyTargets_of_not_mem {entries : List (String × String)} {row : File}
    (h : row.id ∉ entries.map Prod.fst) : applyTargets out entries row = row := by
  induction entries with
  | nil => rfl
  | cons e es ih =>
      rw [List.map_cons, List.mem_cons, not_or] at h
      rw [applyTargets, List.foldl_cons, if_neg h.1]
      exact ih h.2

theorem applyTargets_of_mem {entries : List (String × String)} {row : File} {path : String}
    (hnodup : (entries.map Prod.fst).Nodup) (h : (row.id, path) ∈ entries) :
    applyTargets out entries row = row.setPath path (out.now path) := by
  induction entries with
  | nil => cases h
  | cons e es ih =>
      obtain ⟨he, hnodup⟩ := List.nodup_cons.mp hnodup
      rcases List.mem_cons.mp h with rfl | h
      · rw [applyTargets, List.foldl_cons, if_pos rfl]
        exact applyTargets_of_not_mem he
      · have hne : row.id ≠ e.1 := fun heq =>
          he (heq ▸ List.mem_map_of_mem h)
        rw [applyTargets, List.foldl_cons, if_neg hne]
        exact ih hnodup h

/-- The loop of updates. -/
def updates (entries : List (String × String)) : Tx Unit :=
  entries.forM fun entry => do
    let _ ← update entry.1 entry.2

theorem exec_updates_cons (e : String × String) (es : List (String × String)) :
    (updates (e :: es)).exec out u =
      (FileTable.update u e.1 e.2 (out.now e.2)).mapError Failure.prisma >>= fun r =>
        (updates es).exec out r.2 := by
  change (((do let _ ← update e.1 e.2) : Tx Unit) >>= fun _ => updates es).exec out u = _
  rw [exec_bind, exec_bind, exec_update]
  cases FileTable.update u e.1 e.2 (out.now e.2) <;> rfl

theorem exec_updates_eq_ok {entries : List (String × String)} {r : Unit}
    (h : (updates entries).exec out u = .ok (r, v)) :
    v.rows = u.rows.map (applyTargets out entries) := by
  induction entries generalizing u with
  | nil =>
      cases h
      exact (List.map_id v.rows).symm
  | cons e es ih =>
      rw [exec_updates_cons] at h
      cases hup : FileTable.update u e.1 e.2 (out.now e.2) with
      | error err =>
          rw [hup] at h
          cases h
      | ok p =>
          rw [hup] at h
          obtain ⟨-, -, -, -, -, hrows⟩ := update_eq_ok.mp (show _ = Except.ok (p.1, p.2) from hup)
          rw [ih h, hrows, setPath, List.map_map]
          rfl

/-- If the targets are distinct and no row has one of them, no update violates the index. -/
theorem not_violates_updates (projectId : String) {entries : List (String × String)}
    (hnodup : (entries.map Prod.snd).Nodup)
    (hproject : ∀ e ∈ entries, ∀ row ∈ u.rows, row.id = e.1 → row.projectId = projectId)
    (hfree : ∀ e ∈ entries, ∀ row ∈ u.rows, row.projectId = projectId → row.path ≠ e.2) :
    ¬ Violates ((updates entries).exec out u) := by
  induction entries generalizing u with
  | nil => exact fun he => by cases he
  | cons e es ih =>
      obtain ⟨he, hnodup⟩ := List.nodup_cons.mp hnodup
      rw [exec_updates_cons]
      cases hup : FileTable.update u e.1 e.2 (out.now e.2) with
      | error err =>
          intro hv
          cases hv
          unfold FileTable.update at hup
          split at hup
          · cases hup
          · next row hrow =>
              have hid : row.id = e.1 := by simpa using List.find?_some hrow
              have hmem := List.mem_of_find?_eq_some hrow
              split_ifs at hup with hcollides
              refine hcollides fun other hother _ hkey => ?_
              have hrowProject := hproject e List.mem_cons_self row hmem hid
              exact hfree e List.mem_cons_self other hother
                ((congrArg Prod.fst hkey).trans hrowProject) (congrArg Prod.snd hkey)
      | ok p =>
          obtain ⟨-, -, -, -, -, hrows⟩ := update_eq_ok.mp (show _ = Except.ok (p.1, p.2) from hup)
          have hfrom : ∀ row ∈ p.2.rows, ∃ old ∈ u.rows, row.id = old.id ∧
              row.projectId = old.projectId ∧ (row.path = old.path ∨ row.path = e.2) := by
            intro row hrow
            rw [hrows, setPath, List.mem_map] at hrow
            obtain ⟨old, hold, rfl⟩ := hrow
            by_cases heq : old.id = e.1
            · rw [if_pos heq]
              exact ⟨old, hold, rfl, rfl, .inr rfl⟩
            · rw [if_neg heq]
              exact ⟨old, hold, rfl, rfl, .inl rfl⟩
          refine ih hnodup (fun e' he' row hrow hid => ?_) fun e' he' row hrow hrp hpath => ?_
          · obtain ⟨old, hold, hoid, hop, -⟩ := hfrom row hrow
            rw [hop]
            exact hproject e' (List.mem_cons_of_mem _ he') old hold (hoid ▸ hid)
          · obtain ⟨old, hold, -, hop, hpath' | hpath'⟩ := hfrom row hrow
            · exact hfree e' (List.mem_cons_of_mem _ he') old hold (hop ▸ hrp) (hpath' ▸ hpath)
            · exact he (List.mem_map.mpr ⟨e', he', hpath.symm.trans hpath'⟩)

/-- What a move that goes through has checked of the rows it loaded. -/
structure Admitted (t : Table) (projectId newPath : String) (file : File) (all : List File) :
    Prop where
  ne : file.path ≠ newPath
  outside : ¬ (file.isDir = true ∧ isDescendantOf newPath file.path = true)
  vacant : ∀ entry ∈ targets file newPath all, entry.2 ∉ occupied file all
  dirs : ∀ a ∈ ancestorPaths newPath, ∀ d, FileTable.findUnique t projectId a = some d →
    d.isDir = true

theorem exec_moveBody (fileId newPath : String) :
    (moveBody projectId fileId newPath).exec out t =
      match FileTable.findFirst t fileId projectId with
      | none => .error (.app FILE_NOT_FOUND)
      | some file =>
        if file.path = newPath then .ok (file, t)
        else if file.isDir ∧ isDescendantOf newPath file.path then .error (.app INVALID_MOVE)
        else
          let all := out.order (FileTable.findMany t projectId)
          if (targets file newPath all).any fun entry => entry.2 ∈ occupied file all then
            .error (.app PATH_EXISTS)
          else
            (do
              (ancestorPaths newPath).forM fun ancestor =>
                ensureDirectory projectId ancestor (all.find? fun row => row.path = ancestor)
              updates (targets file newPath all)
              pure { file with path := newPath } : Tx File).exec out t := by
  rw [moveBody, exec_bind, exec_findFirst]
  cases FileTable.findFirst t fileId projectId with
  | none => rfl
  | some file =>
      change Tx.exec out (ite _ _ _) t = _
      dsimp only
      split_ifs with hsame hinside hexists
      · rfl
      · rfl
      · rw [exec_bind, exec_findMany]
        change Tx.exec out (ite _ _ _) t = _
        rw [if_pos hexists]
        rfl
      · rw [exec_bind, exec_findMany]
        change Tx.exec out (ite _ _ _) t = _
        rw [if_neg hexists]
        rfl

theorem moveBody_eq_ok {fileId newPath : String} {row : File}
    (h : (moveBody projectId fileId newPath).exec out t = .ok (row, v)) :
    ∃ file, FileTable.findFirst t fileId projectId = some file ∧
      row = { file with path := newPath } ∧
      ((file.path = newPath ∧ v = t) ∨
        let all := out.order (FileTable.findMany t projectId)
        Admitted t projectId newPath file all ∧
          v.rows = (t.rows ++ newDirs out t projectId (ancestorPaths newPath)).map
            (applyTargets out (targets file newPath all))) := by
  rw [exec_moveBody] at h
  cases hfile : FileTable.findFirst t fileId projectId with
  | none =>
      rw [hfile] at h
      cases h
  | some file =>
      rw [hfile] at h
      dsimp only at h
      refine ⟨file, rfl, ?_⟩
      split_ifs at h with hsame hinside hexists
      · cases h
        exact ⟨by rw [← hsame], .inl ⟨hsame, rfl⟩⟩
      · obtain ⟨_, u, hloop, hrest⟩ := exec_bind_eq_ok.mp h
        obtain ⟨_, w, hup, hret⟩ := exec_bind_eq_ok.mp hrest
        cases hret
        obtain ⟨hrows, hdirs⟩ := exec_parents_eq_ok (decides_move out (out.order_perm _))
          (nodup_ancestorPaths newPath) (fun _ _ => rfl) hloop
        refine ⟨rfl, .inr ⟨⟨hsame, hinside, by simpa using hexists, hdirs⟩, ?_⟩⟩
        rw [exec_updates_eq_ok hup, hrows]

/-! ## Deleting -/

theorem deleteBody_eq_ok {fileId : String} {ids : List String}
    (h : (deleteBody projectId fileId).exec out t = .ok (ids, v)) :
    ∃ file, FileTable.findFirst t fileId projectId = some file ∧
      v.rows = t.rows.filter (fun row => row.id ∉ ids) ∧
      ids = if file.isDir then doomed file (out.order (FileTable.findMany t projectId))
        else [file.id] := by
  rw [deleteBody, exec_bind, exec_findFirst] at h
  cases hfile : FileTable.findFirst t fileId projectId with
  | none =>
      rw [hfile] at h
      cases h
  | some file =>
      rw [hfile] at h
      change Tx.exec out (ite _ _ _) t = _ at h
      refine ⟨file, rfl, ?_⟩
      split_ifs at h ⊢ with hdir
      · cases h
        exact ⟨rfl, rfl⟩
      · rw [exec_bind_eq_ok] at h
        obtain ⟨_, w, hdelete, hrest⟩ := h
        cases hrest
        rw [(delete_eq_ok.mp (exec_delete_eq_ok.mp hdelete)).2]
        exact ⟨rfl, rfl⟩

end CollabIDE.Files.ServiceSpec
