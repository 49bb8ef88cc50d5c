import CollabIDE.Files.TransactionLog
import Mathlib.Data.List.ReduceOption
/-!
# When concurrent calls leave an orphan

A transaction checks what is above a path, or collects what is below it, in one
statement and writes in a later one.  What commits in between can leave a row
without its directory: nothing but the uniqueness of paths is enforced.  This
module has such a run, what must still be true of the committed rows at a commit
for nothing to be orphaned by it, and that this keeps the rows closed in every
run.
-/

namespace CollabIDE.Files.Orphans

open CollabIDE.Files.FileTable CollabIDE.Files.Paths CollabIDE.Files.Transaction
open CollabIDE.Files.Service CollabIDE.Files.Tree CollabIDE.Files.Interleaved
open CollabIDE.Files.TransactionLog CollabIDE.Lib.Machine

variable {projectId : String}

/-! ## What a commit relies on -/

/-- The log deletes the row or moves it away from its path. -/
def Leaves (log : List Entry) (row : File) : Prop := (fate log row).map File.path ≠ some row.path

instance (log : List Entry) (row : File) : Decidable (Leaves log row) :=
  inferInstanceAs (Decidable (¬ _ = _))

/-- Where a request puts a row. -/
def destination : Request → Option String
  | .createFile path _ | .moveFile _ path => some path
  | .deleteFile _ => none

/-- What a transaction has read and relies on is still so among the rows committed before it. -/
structure Undisturbed (projectId : String) (rows : List File) (txn : Txn) : Prop where
  /-- A directory it found above its destination, and so did not create, is there and stays. -/
  dirs : (∃ e ∈ txn.log, ¬ IsRead e) → ∀ path, destination txn.request = some path →
    ∀ a, isDescendantOf path a = true →
      (∀ e ∈ txn.log, e.statement ≠ .create projectId a true) →
        ∃ d ∈ rows, d.projectId = projectId ∧ d.path = a ∧ d.isDir = true ∧ ¬ Leaves txn.log d
  /-- What is below a row it deletes or moves away, it deletes or moves away too. -/
  subtree : ∀ w ∈ rows, w.projectId = projectId → Leaves txn.log w →
    ∀ row ∈ rows, row.projectId = projectId → isDescendantOf row.path w.path = true →
      Leaves txn.log row
  /-- A move that takes other rows along loaded the row it was asked to move where it had found
  it. -/
  root : ∀ e ∈ txn.log, ∀ fileId newPath, txn.request = .moveFile fileId newPath →
    ∀ id path, e.statement = .update id path → id ≠ fileId →
      ∀ e' ∈ txn.log, ∀ file ∈ loaded e', e'.statement = .findFirst fileId projectId →
        ∃ e'' ∈ txn.log, e''.statement = .findMany projectId ∧
          ∃ row ∈ loaded e'', row.id = file.id ∧ row.path = file.path

/-! ## The commit of a transaction -/

section Commit

variable {issued : List Card} {t v : Table} {log : List Entry}

theorem eq_card (hids : (issued.map Card.id).Nodup) {a b : Card} (ha : a ∈ issued)
    (hb : b ∈ issued) (h : a.id = b.id) : a = b :=
  List.inj_on_of_nodup_map hids ha hb h

variable (hview : view t log = some v)

include hview in
theorem mem_view_of_fate {row row' : File} (hrow : row ∈ t.rows) (h : fate log row = some row') :
    row' ∈ v.rows := by
  rw [view_rows hview]
  exact List.mem_append_left _ (List.mem_filterMap.mpr ⟨row, hrow, h⟩)

include hview in
theorem hasDir_of_stays {d : File} (hd : d ∈ t.rows) (hproject : d.projectId = projectId)
    (hdir : d.isDir = true) (hstays : ¬ Leaves log d) : HasDir projectId v.rows d.path := by
  rw [Leaves, not_not, Option.map_eq_some_iff] at hstays
  obtain ⟨d', hfate, hpath⟩ := hstays
  have hcard := card_fate hfate
  exact ⟨d', mem_view_of_fate hview hd hfate, (congrArg Card.projectId hcard).trans hproject, hpath,
    (congrArg Card.isDir hcard).trans hdir⟩

include hview in
theorem hasDir_of_unmoved (hclosed : Closed projectId t) {txn : Txn} (hlog : txn.log = log)
    (hund : Undisturbed projectId t.rows txn) {row row' : File} (hrow : row ∈ t.rows)
    (hproject : row.projectId = projectId) (hfate : fate log row = some row')
    (hpath : row'.path = row.path) {a : String} (ha : isDescendantOf row.path a = true) :
    HasDir projectId v.rows a := by
  obtain ⟨d, hd, hdp, rfl, hdir⟩ := hclosed row hrow hproject a ha
  refine hasDir_of_stays hview hd hdp hdir fun hleaves => ?_
  subst hlog
  refine hund.subtree d hd hdp hleaves row hrow hproject ha ?_
  rw [hfate, Option.map_some, hpath]

/-- No row the log inserts is touched by it again. -/
def InsertsStay (log : List Entry) : Prop :=
  ∀ e ∈ log, ∀ row ∈ e.inserts, ∀ e' ∈ log, row.id ∉ touched e'

include hview in
/-- Everything above the destination is a directory once the commit is through. -/
theorem hasDir_above_destination {txn : Txn} (hlog : txn.log = log)
    (hund : Undisturbed projectId t.rows txn) (hans : Answered projectId issued log)
    (hstay : InsertsStay log) (hwrites : ∃ e ∈ log, ¬ IsRead e) {path a : String}
    (hdest : destination txn.request = some path) (ha : isDescendantOf path a = true) :
    HasDir projectId v.rows a := by
  subst hlog
  by_cases hcreated : ∃ e ∈ txn.log, e.statement = .create projectId a true
  · obtain ⟨e, he, hst⟩ := hcreated
    obtain ⟨-, older, -, hok⟩ := hans.of_mem he
    obtain ⟨row, hrow, hproject, hpath, hdir⟩ := inserts_of_create hst hok
    have hmem : row ∈ e.inserts := hrow ▸ List.mem_singleton_self row
    refine ⟨row, ?_, hproject, hpath, hdir⟩
    rw [view_rows hview]
    exact List.mem_append_right _ (mem_inserted he hmem (hstay e he row hmem))
  · obtain ⟨d, hd, hproject, rfl, hdir, hstays⟩ := hund.dirs hwrites path hdest a ha
      fun e he hst => hcreated ⟨e, he, hst⟩
    exact hasDir_of_stays hview hd hproject hdir hstays

theorem inserted_cases (hans : Answered projectId issued log) (hstay : InsertsStay log) {row : File}
    (h : row ∈ inserted log) :
    ∃ e ∈ log, e.statement = .create row.projectId row.path row.isDir := by
  obtain ⟨e₀, he₀, new, hnew, hcard⟩ := card_inserted h
  have hid : row.id = new.id := congrArg Card.id hcard
  obtain ⟨e, he, hrow⟩ := inserts_of_mem_inserted h fun e he => hid ▸ hstay e₀ he₀ new hnew e he
  obtain ⟨_, older, -, hok⟩ := hans.of_mem he
  exact ⟨e, he, (create_of_inserts hrow hok).1⟩

include hview in
/-- The commit keeps the rows closed if the rows it moves and those it inserts get their
directories. -/
theorem closed_of_parts (hclosed : Closed projectId t) {txn : Txn} (hlog : txn.log = log)
    (hund : Undisturbed projectId t.rows txn)
    (hmoved : ∀ row ∈ t.rows, ∀ row', fate log row = some row' → row'.path ≠ row.path →
      ∀ a, isDescendantOf row'.path a = true → HasDir projectId v.rows a)
    (hinserted : ∀ row ∈ inserted log, row.projectId = projectId →
      ∀ a, isDescendantOf row.path a = true → HasDir projectId v.rows a) :
    Closed projectId v := by
  intro row' hrow' hproject a ha
  rw [view_rows hview, List.mem_append, List.mem_filterMap] at hrow'
  rcases hrow' with ⟨row, hrow, hfate⟩ | hrow'
  · by_cases hpath : row'.path = row.path
    · have hp : row.projectId = projectId :=
        (congrArg Card.projectId (card_fate hfate)).symm.trans hproject
      exact hasDir_of_unmoved hview hclosed hlog hund hrow hp hfate hpath (hpath ▸ ha)
    · exact hmoved row hrow row' hfate hpath a ha
  · exact hinserted row' hrow' hproject a ha

end Commit

theorem touched_of_read {e : Entry} (h : IsRead e) : touched e = [] := by
  obtain ⟨st, reply, locked⟩ := e
  cases st with
  | findUnique | findFirst | findMany => rfl
  | create | update | delete | deleteMany => exact h.elim

theorem isRead_of_findUnique {e : Entry} {p a : String} (h : e.statement = .findUnique p a) :
    IsRead e := by
  rw [IsRead, h]
  trivial

theorem touched_of_create {e : Entry} {p path : String} {isDir : Bool}
    (h : e.statement = .create p path isDir) : touched e = [] := by
  obtain ⟨st, reply, locked⟩ := e
  cases h
  rfl

theorem not_read_of_create {e : Entry} {p path : String} {isDir : Bool}
    (h : e.statement = .create p path isDir) : ¬ IsRead e := by
  rw [IsRead, h]
  exact id

theorem create_of_mem_inserts {e : Entry} {row : File} (h : row ∈ e.inserts) :
    ∃ p path isDir, e.statement = .create p path isDir := by
  obtain ⟨st, reply, locked⟩ := e
  cases st with
  | create p path isDir => exact ⟨p, path, isDir, rfl⟩
  | findUnique | findFirst | findMany | update | delete | deleteMany => cases h

section Bodies

variable {issued : List Card} {t v : Table} {txn : Txn} (hclosed : Closed projectId t)
  (hview : view t txn.log = some v) (hans : Answered projectId issued txn.log)
  (hund : Undisturbed projectId t.rows txn)

include hclosed hview hans hund in
theorem closed_of_create_commit {path : String} {isDir : Bool} {row : File}
    (hrequest : txn.request = .createFile path isDir)
    (hran : Ran (createBody projectId path isDir) txn.log (.ret row)) : Closed projectId v := by
  have hstatements := ran_createBody hran
  have htouched : ∀ e ∈ txn.log, touched e = [] := by
    intro e he
    rcases hstatements e he with (⟨p, a, hst⟩ | ⟨a, -, hst⟩) | hst
    · exact touched_of_read (isRead_of_findUnique hst)
    · exact touched_of_create hst
    · exact touched_of_create hst
  have hstay : InsertsStay txn.log := fun e he row hrow e' he' => by simp [htouched e' he']
  refine closed_of_parts hview hclosed rfl hund (fun row hrow row' hfate hpath => ?_)
    fun row hrow _ a ha => ?_
  · obtain ⟨e, he, hst⟩ := (path_fate hfate).resolve_left hpath
    have hnone := htouched e he
    obtain ⟨st, reply, locked⟩ := e
    cases hst
    cases hnone
  · obtain ⟨e, he, hst⟩ := inserted_cases hans hstay hrow
    have hwrites : ∃ e ∈ txn.log, ¬ IsRead e := ⟨e, he, not_read_of_create hst⟩
    have hdest : destination txn.request = some path := by rw [hrequest]; rfl
    have habove : ∀ b, isDescendantOf path b = true → HasDir projectId v.rows b := fun b hb =>
      hasDir_above_destination hview rfl hund hans hstay hwrites hdest hb
    rcases hstatements e he with (⟨p, b, hst'⟩ | ⟨b, hb, hst'⟩) | hst'
    · cases hst.symm.trans hst'
    · obtain ⟨-, hpath, -⟩ := Statement.create.inj (hst.symm.trans hst')
      exact habove a (isDescendantOf_trans (mem_ancestorPaths.mp hb) (hpath ▸ ha))
    · obtain ⟨-, hpath, -⟩ := Statement.create.inj (hst.symm.trans hst')
      exact habove a (hpath ▸ ha)

include hclosed hview hund in
theorem closed_of_delete_commit {fileId : String} {ids : List String}
    (hans : Answered projectId issued txn.log)
    (hran : Ran (deleteBody projectId fileId) txn.log (.ret ids)) : Closed projectId v := by
  have hstatements := ran_deleteBody hran
  refine closed_of_parts hview hclosed rfl hund (fun row hrow row' hfate hpath => ?_)
    fun row hrow _ => ?_
  · obtain ⟨e, he, hst⟩ := (path_fate hfate).resolve_left hpath
    have hcases := hstatements e he
    rw [IsRead, hst] at hcases
    rcases hcases with h | ⟨id, h⟩ | ⟨ids, h⟩ <;> cases h
  · obtain ⟨e, he, new, hnew, -⟩ := card_inserted hrow
    obtain ⟨_, older, -, hok⟩ := hans.of_mem he
    have hst := (create_of_inserts hnew hok).1
    have hcases := hstatements e he
    rw [IsRead, hst] at hcases
    rcases hcases with h | ⟨id, h⟩ | ⟨ids, h⟩ <;> cases h

theorem moving_cases {file m : File} {all : List File} (h : m ∈ moving file all) :
    (m = file ∨ m ∈ all) ∧
      (m.id = file.id ∨ m.id ≠ file.id ∧ file.isDir = true ∧ m ∈ all ∧
        isDescendantOf m.path file.path = true) := by
  unfold moving at h
  split_ifs at h with hdir
  · obtain ⟨hm, hcond⟩ := List.mem_filter.mp h
    refine ⟨.inr hm, ?_⟩
    by_cases hid : m.id = file.id
    · exact .inl hid
    · exact .inr ⟨hid, hdir, hm, (of_decide_eq_true hcond).resolve_left hid⟩
  · obtain rfl := List.mem_singleton.mp h
    exact ⟨.inl rfl, .inl rfl⟩

theorem mem_moving_of_id {file m : File} {all : List File} (hdir : file.isDir = true) (hm : m ∈ all)
    (h : m.id = file.id ∨ isDescendantOf m.path file.path = true) : m ∈ moving file all := by
  rw [moving, if_pos hdir]
  exact List.mem_filter.mpr ⟨hm, decide_eq_true h⟩

end Bodies

/-! ## The commit of a move -/

/-- What the log of a move that wrote something says, wherever its entries stand. -/
structure MoveFacts (projectId : String) (issued : List Card) (fileId newPath : String)
    (file : File) (all : List File) (log : List Entry) : Prop where
  file_id : file.id = fileId
  file_card : card file ∈ issued
  all_ids : (all.map File.id).Nodup
  mem_all : ∀ row ∈ all, row.projectId = projectId ∧ card row ∈ issued
  all_closed : ∀ row ∈ all, ∀ a, isDescendantOf row.path a = true → HasDir projectId all a
  first : ∃ e ∈ log, e.statement = .findFirst fileId projectId ∧ file ∈ loaded e
  many : ∀ e ∈ log, e.statement = .findMany projectId → loaded e = all
  keeps : ∀ e ∈ log, Keeps e
  fresh : ∀ e ∈ log, ∀ new ∈ e.inserts, file.id ≠ new.id ∧ ∀ row ∈ all, row.id ≠ new.id
  updates : ∀ e ∈ log, ∀ id path, e.statement = .update id path →
    ∃ m ∈ moving file all, m.id = id ∧ target file newPath m = path
  updated : ∀ m ∈ moving file all, ∃ e ∈ log, e.statement = .update m.id (target file newPath m)
  creates : ∀ e ∈ log, ∀ p path isDir, e.statement = .create p path isDir →
    isDescendantOf newPath path = true

theorem mem_moveLog {newPath : String} {file : File} {all : List File}
    {created updated : List Entry} {many first e : Entry}
    (hcreated : ∀ e ∈ created, EnsuresOnly projectId (ancestorPaths newPath) e)
    (hfrom : ∀ e ∈ updated, ∃ entry ∈ targets file newPath all,
      e.statement = .update entry.1 entry.2)
    (he : e ∈ updated ++ created ++ [many, first]) :
    (∃ entry ∈ targets file newPath all, e.statement = .update entry.1 entry.2) ∨
      (e ∈ created ∧ EnsuresOnly projectId (ancestorPaths newPath) e) ∨ e = many ∨ e = first := by
  rw [List.mem_append, List.mem_append, List.mem_pair] at he
  rcases he with (he | he) | he
  · exact .inl (hfrom e he)
  · exact .inr (.inl ⟨he, hcreated e he⟩)
  · exact .inr (.inr he)

/-- The shape of the log and the replies in it, put together. -/
theorem moveFacts {issued : List Card} {fileId newPath : String} {file : File} {all : List File}
    {locked locked' : List String} {created updated : List Entry}
    (hcreated : ∀ e ∈ created, EnsuresOnly projectId (ancestorPaths newPath) e)
    (hfrom : ∀ e ∈ updated, ∃ entry ∈ targets file newPath all,
      e.statement = .update entry.1 entry.2)
    (hto : ∀ entry ∈ targets file newPath all, ∃ e ∈ updated,
      e.statement = .update entry.1 entry.2)
    (hans : Answered projectId issued (updated ++ created ++
      [⟨.findMany projectId, all, locked'⟩, ⟨.findFirst fileId projectId, some file, locked⟩])) :
    MoveFacts projectId issued fileId newPath file all (updated ++ created ++
      [⟨.findMany projectId, all, locked'⟩,
        ⟨.findFirst fileId projectId, some file, locked⟩]) := by
  rw [List.append_assoc] at hans
  have htail := hans.of_append.of_append
  obtain ⟨⟨hids, hall, hclosed⟩, ⟨hfirst, -⟩⟩ := htail
  obtain ⟨hid, hcard⟩ := hfirst file (by simp)
  have hcases : ∀ e ∈ updated ++ created ++ [⟨.findMany projectId, all, locked'⟩,
      ⟨.findFirst fileId projectId, some file, locked⟩], _ :=
    fun e he => mem_moveLog hcreated hfrom he
  refine
    { file_id := hid, file_card := hcard, all_ids := hids, mem_all := hall
      all_closed := hclosed rfl fun e he => List.mem_singleton.mp he ▸ trivial
      first := ⟨⟨.findFirst fileId projectId, some file, locked⟩, by simp, rfl, by simp [loaded]⟩
      many := fun e he hst => ?_, keeps := fun e he => ?_, fresh := fun e he new hnew => ?_
      updates := fun e he id path hst => ?_, updated := fun m hm => ?_
      creates := fun e he p path isDir hst => ?_ }
  · rcases hcases e he with ⟨entry, -, h⟩ | ⟨-, ⟨p, a, h⟩ | ⟨a, -, h⟩⟩ | rfl | rfl
    · cases hst.symm.trans h
    · cases hst.symm.trans h
    · cases hst.symm.trans h
    · rfl
    · cases hst
  · rw [Keeps]
    rcases hcases e he with ⟨entry, -, h⟩ | ⟨-, ⟨p, a, h⟩ | ⟨a, -, h⟩⟩ | rfl | rfl
    · rw [h]
      trivial
    · rw [h]
      trivial
    · rw [h]
      trivial
    · trivial
    · trivial
  · obtain ⟨p, path, isDir, hst⟩ := create_of_mem_inserts hnew
    rcases hcases e he with ⟨entry, -, h⟩ | ⟨hmem, -⟩ | rfl | rfl
    · cases hst.symm.trans h
    · obtain ⟨older, holder, hok⟩ := hans.of_append.of_mem_append hmem
      have hfresh := (create_of_inserts hnew hok).2.2
      refine ⟨hfresh ⟨.findFirst fileId projectId, some file, locked⟩ (holder _ ?_) file ?_,
        hfresh ⟨.findMany projectId, all, locked'⟩ (holder _ List.mem_cons_self)⟩
      · exact List.mem_cons_of_mem _ List.mem_cons_self
      · exact List.mem_singleton_self file
    · cases hnew
    · cases hnew
  · rcases hcases e he with ⟨entry, hentry, h⟩ | ⟨-, ⟨p, a, h⟩ | ⟨a, -, h⟩⟩ | rfl | rfl
    · obtain ⟨m, hm, rfl⟩ := List.mem_map.mp hentry
      cases hst.symm.trans h
      exact ⟨m, hm, rfl, rfl⟩
    · cases hst.symm.trans h
    · cases hst.symm.trans h
    · cases hst
    · cases hst
  · obtain ⟨e, he, hst⟩ := hto _ (List.mem_map_of_mem hm)
    exact ⟨e, List.mem_append_left _ (List.mem_append_left _ he), hst⟩
  · rcases hcases e he with ⟨entry, -, h⟩ | ⟨-, ⟨p, a, h⟩ | ⟨a, ha, h⟩⟩ | rfl | rfl
    · cases hst.symm.trans h
    · cases hst.symm.trans h
    · obtain ⟨-, rfl, -⟩ := Statement.create.inj (hst.symm.trans h)
      exact mem_ancestorPaths.mp ha
    · cases hst
    · cases hst

section Move

variable {issued : List Card} {t v : Table} {txn : Txn} {fileId newPath : String} {file : File}
  {all : List File}

theorem MoveFacts.card_moving {log : List Entry}
    (hf : MoveFacts projectId issued fileId newPath file all log) {m : File}
    (hm : m ∈ moving file all) : card m ∈ issued := by
  rcases (moving_cases hm).1 with rfl | hall
  · exact hf.file_card
  · exact (hf.mem_all m hall).2

theorem MoveFacts.moving_inj {log : List Entry}
    (hf : MoveFacts projectId issued fileId newPath file all log) {m m' : File}
    (hm : m ∈ moving file all) (hm' : m' ∈ moving file all) (h : m.id = m'.id) : m = m' := by
  unfold moving at hm hm'
  split_ifs at hm hm'
  · exact List.inj_on_of_nodup_map hf.all_ids (List.mem_filter.mp hm).1 (List.mem_filter.mp hm').1 h
  · rw [List.mem_singleton.mp hm, List.mem_singleton.mp hm']

variable (hf : MoveFacts projectId issued fileId newPath file all txn.log)
  (hview : view t txn.log = some v) (hcards : ∀ row ∈ t.rows, card row ∈ issued)
  (hids : (issued.map Card.id).Nodup)

include hf in
theorem MoveFacts.insertsStay : InsertsStay txn.log := by
  intro e he new hnew e' he' htouched
  obtain ⟨hfile, hall⟩ := hf.fresh e he new hnew
  have hkeeps := hf.keeps e' he'
  have hupdates := hf.updates e' he'
  obtain ⟨st, reply, locked⟩ := e'
  cases st with
  | findUnique | findFirst | findMany | create => cases htouched
  | delete | deleteMany => exact hkeeps.elim
  | update id path =>
      obtain ⟨m, hm, hid, -⟩ := hupdates id path rfl
      have hnewId : new.id = id := List.mem_singleton.mp htouched
      rcases (moving_cases hm).1 with rfl | hmem
      · exact hfile (hid.trans hnewId.symm)
      · exact hall m hmem (hid.trans hnewId.symm)

include hf hview hcards hids in
theorem exists_row_at_target {m : File} (hm : m ∈ moving file all) :
    ∃ row ∈ v.rows, row.path = target file newPath m ∧ card row = card m := by
  obtain ⟨e, he, hst⟩ := hf.updated m hm
  rcases exists_row_of_update hview he hst with ⟨row, hrow, hid⟩ | ⟨e', he', new, hnew, hid⟩
  · obtain ⟨row', hfate⟩ := exists_fate hf.keeps row
    refine ⟨row', mem_view_of_fate hview hrow hfate, ?_, ?_⟩
    · refine path_fate_of_updates hfate ⟨e, he, hid ▸ hst⟩ fun e' he' path' hst' => ?_
      obtain ⟨m', hm', hid', hpath⟩ := hf.updates e' he' _ _ hst'
      rw [← hpath, hf.moving_inj hm' hm (hid'.trans hid)]
    · rw [card_fate hfate]
      exact eq_card hids (hcards row hrow) (hf.card_moving hm) hid
  · obtain ⟨hfile, hall⟩ := hf.fresh e' he' new hnew
    rcases (moving_cases hm).1 with rfl | hmem
    · exact absurd hid.symm hfile
    · exact absurd hid.symm (hall m hmem)

include hf hview hcards hids in
/-- Everything above a target is a directory. -/
theorem hasDir_above_target (hans : Answered projectId issued txn.log)
    (hund : Undisturbed projectId t.rows txn) (hrequest : txn.request = .moveFile fileId newPath)
    {m : File} (hm : m ∈ moving file all) {a : String}
    (ha : isDescendantOf (target file newPath m) a = true) : HasDir projectId v.rows a := by
  obtain ⟨e, he, hst⟩ := hf.updated m hm
  have hwrites : ∃ e ∈ txn.log, ¬ IsRead e := ⟨e, he, by rw [IsRead, hst]; exact id⟩
  have habove : ∀ b, isDescendantOf newPath b = true → HasDir projectId v.rows b := fun b hb =>
    hasDir_above_destination hview rfl hund hans hf.insertsStay hwrites
      (by rw [hrequest]; rfl) hb
  rcases (moving_cases hm).2 with hid | ⟨hid, hdir, hmem, hbelow⟩
  · rw [target, if_pos hid] at ha
    exact habove a ha
  · -- the row it was asked to move was loaded where it had been found
    obtain ⟨root, hroot, hrootId, hrootPath⟩ : ∃ root ∈ all, root.id = file.id ∧
        root.path = file.path := by
      obtain ⟨e', he', hfirst, hfile⟩ := hf.first
      obtain ⟨e'', he'', hmany, root, hroot, hr⟩ := hund.root e he fileId newPath hrequest _ _ hst
        (hf.file_id ▸ hid) e' he' file hfile hfirst
      exact ⟨root, hf.many e'' he'' hmany ▸ hroot, hr⟩
    rw [target, if_neg hid, isDescendantOf_replacePathPrefix_iff hbelow] at ha
    rcases ha with ha | rfl | ⟨q, hqf, hmq, rfl⟩
    · exact habove a ha
    · have hmoving := mem_moving_of_id hdir hroot (.inl hrootId)
      obtain ⟨row, hrow, hpath, hcard⟩ := exists_row_at_target hf hview hcards hids hmoving
      have hfileCard : card root = card file :=
        eq_card hids (hf.mem_all root hroot).2 hf.file_card hrootId
      rw [target, if_pos hrootId] at hpath
      refine ⟨row, hrow, ?_, hpath, ?_⟩
      · exact (congrArg Card.projectId hcard).trans (hf.mem_all root hroot).1
      · exact (congrArg Card.isDir (hcard.trans hfileCard)).trans hdir
    · obtain ⟨d, hd, hproject, rfl, hddir⟩ := hf.all_closed m hmem q hmq
      have hne : d.id ≠ file.id := fun h => by
        have heq := List.inj_on_of_nodup_map hf.all_ids hd hroot (h.trans hrootId.symm)
        rw [heq, hrootPath] at hqf
        exact not_isDescendantOf_self _ hqf
      obtain ⟨row, hrow, hpath, hcard⟩ := exists_row_at_target hf hview hcards hids
        (mem_moving_of_id hdir hd (.inr hqf))
      rw [target, if_neg hne] at hpath
      exact ⟨row, hrow, (congrArg Card.projectId hcard).trans hproject, hpath,
        (congrArg Card.isDir hcard).trans hddir⟩

include hf hview hcards hids in
theorem closed_of_moveFacts (hclosed : Closed projectId t)
    (hans : Answered projectId issued txn.log) (hund : Undisturbed projectId t.rows txn)
    (hrequest : txn.request = .moveFile fileId newPath) :
    Closed projectId v := by
  refine closed_of_parts hview hclosed rfl hund (fun row hrow row' hfate hpath a ha => ?_)
    fun row hrow _ a ha => ?_
  · obtain ⟨e, he, hst⟩ := (path_fate hfate).resolve_left hpath
    obtain ⟨m, hm, -, htarget⟩ := hf.updates e he _ _ hst
    exact hasDir_above_target hf hview hcards hids hans hund hrequest hm (htarget ▸ ha)
  · obtain ⟨e, he, hst⟩ := inserted_cases hans hf.insertsStay hrow
    exact hasDir_above_destination hview rfl hund hans hf.insertsStay
      ⟨e, he, not_read_of_create hst⟩ (by rw [hrequest]; rfl)
      (isDescendantOf_trans (hf.creates e he _ _ _ hst) ha)

end Move

theorem closed_of_move_commit {issued : List Card} {t v : Table} {txn : Txn}
    {fileId newPath : String} {row : File} (hclosed : Closed projectId t)
    (hview : view t txn.log = some v) (hans : Answered projectId issued txn.log)
    (hund : Undisturbed projectId t.rows txn) (hids : (issued.map Card.id).Nodup)
    (hcards : ∀ row ∈ t.rows, card row ∈ issued)
    (hrequest : txn.request = .moveFile fileId newPath)
    (hran : Ran (moveBody projectId fileId newPath) txn.log (.ret row)) : Closed projectId v := by
  have hlog := ran_moveBody hran
  generalize hl : txn.log = log at hlog
  cases hlog with
  | idle hreads =>
      rw [hl, view_of_reads hreads] at hview
      cases hview
      exact hclosed
  | moved houtside hcreated hfrom hto =>
      rw [hl] at hans
      have hf := moveFacts hcreated hfrom hto hans
      rw [← hl] at hf hans
      exact closed_of_moveFacts hf hview hcards hids hclosed hans hund hrequest

/-! ## Runs -/

/-- A transaction has asked what its body asks, and its replies are as they should be. -/
structure Consistent (projectId : String) (issued : List Card) (txn : Txn) : Prop where
  ran : Ran (txn.request.body projectId) txn.log txn.rest
  answered : Answered projectId issued txn.log

structure Inv (projectId : String) (s : State) : Prop where
  closed : Closed projectId s.committed
  issued : (s.issued.map Card.id).Nodup
  cards : ∀ row ∈ s.committed.rows, card row ∈ s.issued
  txns : ∀ txn, some txn ∈ s.txns → Consistent projectId s.issued txn

theorem inv_start {t : Table} (h : Closed projectId t) : Inv projectId (start t) where
  closed := h
  issued := by
    have hids : (t.rows.map card).map Card.id = t.rows.map File.id := by
      rw [List.map_map]
      rfl
    exact hids ▸ t.ids
  cards row hrow := List.mem_map_of_mem hrow
  txns txn htxn := absurd htxn List.not_mem_nil

/-- What the transaction that commits relies on; other steps are free. -/
def CommitsUndisturbed (projectId : String) (s : State) : Event → Prop
  | .commit i => ∀ txn, s.txns[i]? = some (some txn) → Undisturbed projectId s.committed.rows txn
  | .begin .. | .statement .. | .abort .. => True

theorem closed_of_commit {s : State} {txn : Txn} {v : Table} (hinv : Inv projectId s)
    (htxn : some txn ∈ s.txns) (hrest : txn.rest = .ret ())
    (hview : view s.committed txn.log = some v)
    (hund : Undisturbed projectId s.committed.rows txn) : Closed projectId v := by
  obtain ⟨hran, hans⟩ := hinv.txns txn htxn
  rw [hrest] at hran
  cases hrequest : txn.request with
  | createFile path isDir =>
      rw [hrequest] at hran
      obtain ⟨l₁, l₂, row, hlog, hbody, hlast⟩ := ran_bind_ret hran
      obtain ⟨rfl, -⟩ := ran_ret hlast
      exact closed_of_create_commit hinv.closed hview hans hund hrequest
        (by rw [hlog]; exact hbody)
  | moveFile fileId newPath =>
      rw [hrequest] at hran
      obtain ⟨l₁, l₂, row, hlog, hbody, hlast⟩ := ran_bind_ret hran
      obtain ⟨rfl, -⟩ := ran_ret hlast
      exact closed_of_move_commit hinv.closed hview hans hund hinv.issued hinv.cards hrequest
        (by rw [hlog]; exact hbody)
  | deleteFile fileId =>
      rw [hrequest] at hran
      obtain ⟨l₁, l₂, ids, hlog, hbody, hlast⟩ := ran_bind_ret hran
      obtain ⟨rfl, -⟩ := ran_ret hlast
      exact closed_of_delete_commit hinv.closed hview hund hans (by rw [hlog]; exact hbody)

theorem inv_step {s s' : State} {e : Event} (hinv : Inv projectId s)
    (hund : CommitsUndisturbed projectId s e) (h : step projectId s e = some s') :
    Inv projectId s' := by
  cases took h with
  | begin request =>
      refine ⟨hinv.closed, hinv.issued, hinv.cards, fun txn htxn => ?_⟩
      rcases List.mem_append.mp htxn with htxn | htxn
      · exact hinv.txns txn htxn
      · cases List.mem_singleton.mp htxn
        exact ⟨.nil, trivial⟩
  | @statement i out txn st next v v' r htxn hrest hview hrun hallowed =>
      obtain ⟨hran, hans⟩ := hinv.txns txn htxn
      have hsub : s.issued ⊆
          (Entry.mk st r (Statement.locks v st r)).inserts.map card ++ s.issued :=
        List.subset_append_right _ _
      refine ⟨hinv.closed, ?_, fun row hrow => hsub (hinv.cards row hrow), fun other hother => ?_⟩
      · have hfresh := hallowed.1
        cases st with
        | create p path isDir =>
            exact List.nodup_cons.mpr ⟨hfresh r List.mem_cons_self, hinv.issued⟩
        | findUnique | findFirst | findMany | update | delete | deleteMany => exact hinv.issued
      · rcases List.mem_or_eq_of_mem_set hother with hother | hother
        · exact ⟨(hinv.txns other hother).ran, (hinv.txns other hother).answered.mono hsub⟩
        · cases hother
          refine ⟨.issue r _ (hrest ▸ hran), ?_, hans.mono hsub⟩
          exact answerOk_of_run hinv.closed hinv.cards hans hview hrun hallowed.1
  | @commit i txn v hat hrest hview =>
      have htxn := List.mem_of_getElem? hat
      refine ⟨closed_of_commit hinv htxn hrest hview (hund txn hat), hinv.issued, ?_,
        fun other hother => ?_⟩
      · exact card_view hinv.cards (hinv.txns txn htxn).answered hview
      · rcases List.mem_or_eq_of_mem_set hother with hother | hother
        · exact hinv.txns other hother
        · cases hother
  | abort i =>
      refine ⟨hinv.closed, hinv.issued, hinv.cards, fun other hother => ?_⟩
      rcases List.mem_or_eq_of_mem_set hother with hother | hother
      · exact hinv.txns other hother
      · cases hother

/-- In a run whose commits are all undisturbed the rows are closed in every state. -/
theorem closed_of_undisturbed {t : Table} {events : List Event} {s : State}
    (h : Closed projectId t) (hrun : run (step projectId) (start t) events = some s)
    (hund : Meets (step projectId) (CommitsUndisturbed projectId) (start t) events) :
    Closed projectId s.committed :=
  (run_invariant_of_meets (fun _ _ _ hinv hok hstep => inv_step hinv hok hstep) (inv_start h) hund
    hrun).closed

/-- One directory. -/
def dTable : Table where
  rows := [⟨"d", "p", "d", "", true, 0, 0⟩]
  ids := by decide
  keys := by decide

/-- Two files are created in the directory at the same time. -/
def createTwo : List Event :=
  [.begin (.createFile "d/x.py" false), .begin (.createFile "d/y.py" false),
    .statement 0 plainOutside, .statement 1 plainOutside, .statement 1 plainOutside,
    .statement 0 plainOutside, .statement 0 plainOutside, .statement 1 plainOutside,
    .commit 1, .commit 0]

/-- Every transaction creates one of the two, takes no row away, and the directory is there. -/
def UnderD (s : State) : Prop :=
  ∀ txn ∈ s.txns.reduceOption,
    (∃ path ∈ ["d/x.py", "d/y.py"], txn.request = .createFile path false) ∧
      (∀ w ∈ s.committed.rows, ¬ Leaves txn.log w) ∧
      ∃ d ∈ s.committed.rows, d.projectId = "p" ∧ d.path = "d" ∧ d.isDir = true

instance (s : State) : Decidable (UnderD s) :=
  inferInstanceAs (Decidable (∀ txn ∈ s.txns.reduceOption, _ ∧ _ ∧ _))

theorem undisturbed_of_underD {s : State} {e : Event} (h : UnderD s) :
    CommitsUndisturbed "p" s e := by
  cases e with
  | commit i =>
      intro txn htxn
      obtain ⟨⟨path, hpath, hrequest⟩, hstay, d, hd, hproject, hname, hdir⟩ :=
        h txn (List.reduceOption_mem_iff.mpr (List.mem_of_getElem? htxn))
      have habove : ∀ path ∈ ["d/x.py", "d/y.py"], ∀ a ∈ ancestorPaths path, a = "d" := by decide
      refine ⟨fun _ path' hdest a ha _ => ?_, fun w hw _ hleaves => absurd hleaves (hstay w hw),
        fun e he fileId newPath hmove => ?_⟩
      · rw [hrequest] at hdest
        obtain rfl := Option.some.inj hdest
        obtain rfl := habove path hpath a (mem_ancestorPaths.mpr ha)
        exact ⟨d, hd, hproject, hname, hdir, hstay d hd⟩
      · rw [hrequest] at hmove
        cases hmove
  | begin | statement | abort => trivial

theorem closed_of_undisturbed_createTwo :
    ∃ s, run (step "p") (start dTable) createTwo = some s ∧
      s.committed.rows.map File.path = ["d", "d/y.py", "d/x.py"] ∧ Closed "p" s.committed := by
  have hpaths : (run (step "p") (start dTable) createTwo).map
      (fun s => s.committed.rows.map File.path) = some ["d", "d/y.py", "d/x.py"] := by
    decide +kernel
  have hunder : Meets (step "p") (fun s _ => UnderD s) (start dTable) createTwo := by
    decide +kernel
  obtain ⟨s, hrun, hpaths⟩ := Option.map_eq_some_iff.mp hpaths
  exact ⟨s, hrun, hpaths, closed_of_undisturbed (by decide +kernel) hrun
    (hunder.mono fun _ _ _ => undisturbed_of_underD)⟩

/-- The directory is deleted between the check for it and the creation below it. -/
def createUnderDelete : List Event :=
  [.begin (.createFile "d/x.py" false), .begin (.deleteFile "d"),
    .statement 0 plainOutside, .statement 0 plainOutside,
    .statement 1 plainOutside, .statement 1 plainOutside, .statement 1 plainOutside, .commit 1,
    .statement 0 plainOutside, .commit 0]

theorem createUnderDelete_run :
    (run (step "p") (start dTable) createUnderDelete).map (fun s =>
      decide ((∀ txn ∈ s.txns, txn.isNone = true) ∧ ¬ Closed "p" s.committed)) = some true := by
  decide +kernel

/-- Both transactions commit and the file is left without its directory. -/
theorem not_closed_createUnderDelete :
    ¬ ∀ (t : Table) (events : List Event) (s : State), Closed "p" t →
      run (step "p") (start t) events = some s → (∀ txn ∈ s.txns, txn.isNone = true) →
        Closed "p" s.committed := by
  intro h
  obtain ⟨s, hs, hfacts⟩ := Option.map_eq_some_iff.mp createUnderDelete_run
  obtain ⟨hdone, hopen⟩ := of_decide_eq_true hfacts
  exact hopen (h dTable createUnderDelete s (by decide +kernel) hs hdone)

end CollabIDE.Files.Orphans
