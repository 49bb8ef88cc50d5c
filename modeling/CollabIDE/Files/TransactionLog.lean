import CollabIDE.Files.Interleaved
import CollabIDE.Files.Tree
/-!
# The log of a transaction

Three things about the statements a transaction issued and their replies: what
they do to the rows when they are committed, which statements each body issues,
and what is true of a reply whatever commits after it was given.
-/

namespace CollabIDE.Files.TransactionLog

open CollabIDE.Files.FileTable CollabIDE.Files.Paths CollabIDE.Files.Transaction
open CollabIDE.Files.Service CollabIDE.Files.Tree CollabIDE.Files.Interleaved

/-! ## What a log does to the rows -/

/-- What an entry makes of a row; `none` where it deletes it. -/
def onRow : Entry → File → Option File
  | ⟨.update id path, new, _⟩, row =>
    some (if row.id = id then row.setPath path new.updatedAt else row)
  | ⟨.delete id, _, _⟩, row => if row.id = id then none else some row
  | ⟨.deleteMany ids, _, _⟩, row => if row.id ∈ ids then none else some row
  | ⟨.create .., _, _⟩, row | ⟨.findUnique .., _, _⟩, row | ⟨.findFirst .., _, _⟩, row
  | ⟨.findMany .., _, _⟩, row => some row

/-- What a log makes of a row that was there before. -/
def fate : List Entry → File → Option File
  | [], row => some row
  | e :: older, row => (fate older row).bind (onRow e)

/-- The rows a log adds. -/
def inserted : List Entry → List File
  | [] => []
  | e :: older => (inserted older).filterMap (onRow e) ++ e.inserts

theorem rows_deleteMany (t : Table) (ids : List String) :
    (FileTable.deleteMany t ids).rows =
      t.rows.filterMap fun row => if row.id ∈ ids then none else some row := by
  change t.rows.filter _ = _
  rw [← List.filterMap_eq_filter]
  refine List.filterMap_congr fun row _ => ?_
  by_cases hrow : row.id ∈ ids <;> simp [hrow, Option.guard]

theorem apply_rows {e : Entry} {t u : Table} (h : e.apply t = some u) :
    u.rows = t.rows.filterMap (onRow e) ++ e.inserts := by
  obtain ⟨st, reply, locked⟩ := e
  have hid : t.rows.filterMap some = t.rows := List.filterMap_some
  cases st with
  | findUnique | findFirst | findMany =>
      cases h
      exact (List.append_nil _).symm.trans (congrArg (· ++ []) hid.symm)
  | create =>
      cases hc : FileTable.create t reply with
      | error e => simp [Entry.apply, hc, Except.toOption] at h
      | ok w =>
          simp only [Entry.apply, hc, Except.toOption, Option.some.injEq] at h
          subst h
          exact (create_eq_ok.mp hc).1.trans (congrArg (· ++ [reply]) hid.symm)
  | update id path =>
      cases hc : FileTable.update t id path reply.updatedAt with
      | error e => simp [Entry.apply, hc, Except.toOption] at h
      | ok w =>
          simp only [Entry.apply, hc, Except.toOption, Option.map_some, Option.some.injEq] at h
          subst h
          obtain ⟨-, -, -, -, -, hrows⟩ := update_eq_ok.mp (show _ = Except.ok (w.1, w.2) from hc)
          rw [hrows, setPath, ← List.filterMap_eq_map]
          exact (List.append_nil _).symm
  | delete id =>
      cases hc : FileTable.delete t id with
      | error e => simp [Entry.apply, hc, Except.toOption] at h
      | ok w =>
          simp only [Entry.apply, hc, Except.toOption, Option.some.injEq] at h
          subst h
          rw [(delete_eq_ok.mp hc).2, rows_deleteMany]
          refine (List.append_nil _).symm.trans (congrArg (· ++ []) ?_)
          exact List.filterMap_congr fun row _ => by simp [onRow]
  | deleteMany ids =>
      cases h
      rw [rows_deleteMany]
      exact (List.append_nil _).symm

/-- A committed table is the fates of the old rows and the rows the log adds. -/
theorem view_rows {t v : Table} {log : List Entry} (h : view t log = some v) :
    v.rows = t.rows.filterMap (fate log) ++ inserted log := by
  induction log generalizing v with
  | nil =>
      cases h
      simp [fate, inserted]
  | cons e older ih =>
      obtain ⟨u, hu, hv⟩ := Option.bind_eq_some_iff.mp h
      rw [apply_rows hv, ih hu, List.filterMap_append, List.filterMap_filterMap, List.append_assoc]
      rfl

@[simp] theorem card_onRow {e : Entry} {row row' : File} (h : onRow e row = some row') :
    card row' = card row := by
  obtain ⟨st, reply, locked⟩ := e
  cases st <;> simp only [onRow] at h <;> (try split_ifs at h) <;> cases h <;> rfl

theorem card_fate {log : List Entry} {row row' : File} (h : fate log row = some row') :
    card row' = card row := by
  induction log generalizing row' with
  | nil =>
      cases h
      rfl
  | cons e older ih =>
      obtain ⟨r, hr, hrow⟩ := Option.bind_eq_some_iff.mp h
      exact (card_onRow hrow).trans (ih hr)

theorem card_inserted {log : List Entry} {row : File} (h : row ∈ inserted log) :
    ∃ e ∈ log, ∃ new ∈ e.inserts, card row = card new := by
  induction log generalizing row with
  | nil => cases h
  | cons e older ih =>
      rcases List.mem_append.mp h with h | h
      · obtain ⟨r, hr, hrow⟩ := List.mem_filterMap.mp h
        obtain ⟨e', he', new, hnew, hcard⟩ := ih hr
        exact ⟨e', List.mem_cons_of_mem _ he', new, hnew, (card_onRow hrow).trans hcard⟩
      · exact ⟨e, List.mem_cons_self, row, h, rfl⟩

/-- The rows an entry updates or deletes. -/
def touched : Entry → List String
  | ⟨.update id _, _, _⟩ | ⟨.delete id, _, _⟩ => [id]
  | ⟨.deleteMany ids, _, _⟩ => ids
  | ⟨.create .., _, _⟩ | ⟨.findUnique .., _, _⟩ | ⟨.findFirst .., _, _⟩
  | ⟨.findMany .., _, _⟩ => []

theorem onRow_of_not_touched {e : Entry} {row : File} (h : row.id ∉ touched e) :
    onRow e row = some row := by
  obtain ⟨st, reply, locked⟩ := e
  cases st <;> simp_all [onRow, touched]

theorem mem_inserted {log : List Entry} {e : Entry} {row : File} (he : e ∈ log)
    (hrow : row ∈ e.inserts) (huntouched : ∀ e' ∈ log, row.id ∉ touched e') :
    row ∈ inserted log := by
  induction log with
  | nil => cases he
  | cons e' older ih =>
      rcases List.mem_cons.mp he with rfl | he
      · exact List.mem_append_right _ hrow
      · refine List.mem_append_left _ (List.mem_filterMap.mpr ⟨row, ?_, ?_⟩)
        · exact ih he fun e'' he'' => huntouched e'' (List.mem_cons_of_mem _ he'')
        · exact onRow_of_not_touched (huntouched e' List.mem_cons_self)

theorem inserts_of_mem_inserted {log : List Entry} {row : File} (h : row ∈ inserted log)
    (huntouched : ∀ e ∈ log, row.id ∉ touched e) : ∃ e ∈ log, row ∈ e.inserts := by
  induction log generalizing row with
  | nil => cases h
  | cons e older ih =>
      rcases List.mem_append.mp h with h | h
      · obtain ⟨r, hr, hrow⟩ := List.mem_filterMap.mp h
        have hid : row.id = r.id := congrArg Card.id (card_onRow hrow)
        have hsame := onRow_of_not_touched (hid ▸ huntouched e List.mem_cons_self)
        rw [hrow, Option.some.injEq] at hsame
        subst hsame
        obtain ⟨e', he', hmem⟩ := ih hr fun e' he' => huntouched e' (List.mem_cons_of_mem _ he')
        exact ⟨e', List.mem_cons_of_mem _ he', hmem⟩
      · exact ⟨e, List.mem_cons_self, h⟩

theorem path_fate {log : List Entry} {row row' : File} (h : fate log row = some row') :
    row'.path = row.path ∨ ∃ e ∈ log, e.statement = .update row.id row'.path := by
  induction log generalizing row' with
  | nil =>
      cases h
      exact .inl rfl
  | cons e older ih =>
      obtain ⟨r, hr, hrow⟩ := Option.bind_eq_some_iff.mp h
      have hid : r.id = row.id := congrArg Card.id (card_fate hr)
      have hkept : row' = r →
          row'.path = row.path ∨ ∃ e' ∈ e :: older, e'.statement = .update row.id row'.path := by
        rintro rfl
        exact (ih hr).imp_right fun ⟨e', he', hst⟩ => ⟨e', List.mem_cons_of_mem _ he', hst⟩
      obtain ⟨st, reply, locked⟩ := e
      cases st with
      | findUnique | findFirst | findMany | create => exact hkept (Option.some.inj hrow).symm
      | update id path =>
          by_cases hrid : r.id = id
          · simp only [onRow, hrid, if_true, Option.some.injEq] at hrow
            subst hrow hrid
            exact .inr ⟨_, List.mem_cons_self, by rw [← hid]; rfl⟩
          · simp only [onRow, hrid, if_false, Option.some.injEq] at hrow
            exact hkept hrow.symm
      | delete id =>
          simp only [onRow] at hrow
          split_ifs at hrow
          exact hkept (Option.some.inj hrow).symm
      | deleteMany ids =>
          simp only [onRow] at hrow
          split_ifs at hrow
          exact hkept (Option.some.inj hrow).symm

theorem path_fate_of_updates {log : List Entry} {row row' : File} {path : String}
    (h : fate log row = some row') (hupdated : ∃ e ∈ log, e.statement = .update row.id path)
    (hsame : ∀ e ∈ log, ∀ path', e.statement = .update row.id path' → path' = path) :
    row'.path = path := by
  induction log generalizing row' with
  | nil =>
      obtain ⟨e, he, -⟩ := hupdated
      cases he
  | cons e older ih =>
      obtain ⟨r, hr, hrow⟩ := Option.bind_eq_some_iff.mp h
      have hid : r.id = row.id := congrArg Card.id (card_fate hr)
      by_cases hhere : e.statement = .update row.id path
      · obtain ⟨st, reply, locked⟩ := e
        cases hhere
        simp only [onRow, hid, if_true, Option.some.injEq] at hrow
        rw [← hrow]
        rfl
      · have hupdated' : ∃ e' ∈ older, e'.statement = .update row.id path := by
          obtain ⟨e', he', hst⟩ := hupdated
          rcases List.mem_cons.mp he' with rfl | he'
          · exact absurd hst hhere
          · exact ⟨e', he', hst⟩
        have hpath := ih hr hupdated' fun e' he' => hsame e' (List.mem_cons_of_mem _ he')
        have hone : fate [e] r = some row' := by simpa [fate] using hrow
        rcases path_fate hone with hkept | ⟨e', he', hst⟩
        · rw [hkept, hpath]
        · rw [List.mem_singleton.mp he', hid] at hst
          exact hsame e List.mem_cons_self _ hst

/-- An entry that deletes nothing. -/
def Keeps (e : Entry) : Prop :=
  match e.statement with
  | .delete .. | .deleteMany .. => False
  | .findUnique .. | .findFirst .. | .findMany .. | .create .. | .update .. => True

theorem exists_fate {log : List Entry} (h : ∀ e ∈ log, Keeps e) (row : File) :
    ∃ row', fate log row = some row' := by
  induction log with
  | nil => exact ⟨row, rfl⟩
  | cons e older ih =>
      obtain ⟨r, hr⟩ := ih fun e' he' => h e' (List.mem_cons_of_mem _ he')
      have hkeeps := h e List.mem_cons_self
      rw [fate, hr, Option.bind_some]
      obtain ⟨st, reply, locked⟩ := e
      cases st with
      | findUnique | findFirst | findMany | create | update => exact ⟨_, rfl⟩
      | delete | deleteMany => exact hkeeps.elim

/-- An update that went through had its row: one from before, or one the log had inserted. -/
theorem exists_row_of_update {t v : Table} {log : List Entry} (h : view t log = some v) {e : Entry}
    (he : e ∈ log) {id path : String} (hst : e.statement = .update id path) :
    (∃ row ∈ t.rows, row.id = id) ∨ ∃ e' ∈ log, ∃ new ∈ e'.inserts, new.id = id := by
  induction log generalizing v with
  | nil => cases he
  | cons e' older ih =>
      obtain ⟨u, hu, hv⟩ := Option.bind_eq_some_iff.mp h
      rcases List.mem_cons.mp he with rfl | he
      · obtain ⟨st, reply, locked⟩ := e
        cases hst
        cases hc : FileTable.update u id path reply.updatedAt with
        | error err => simp [Entry.apply, hc, Except.toOption] at hv
        | ok w =>
            obtain ⟨row, hrow, hid, -⟩ := update_eq_ok.mp (show _ = Except.ok (w.1, w.2) from hc)
            rw [view_rows hu, List.mem_append, List.mem_filterMap] at hrow
            rcases hrow with ⟨old, hold, hfate⟩ | hrow
            · exact .inl ⟨old, hold, (congrArg Card.id (card_fate hfate)).symm.trans hid⟩
            · obtain ⟨e', he', new, hnew, hcard⟩ := card_inserted hrow
              exact .inr ⟨e', List.mem_cons_of_mem _ he', new, hnew,
                (congrArg Card.id hcard).symm.trans hid⟩
      · exact (ih hu he).imp_right fun ⟨e'', he'', hnew⟩ =>
          ⟨e'', List.mem_cons_of_mem _ he'', hnew⟩

/-! ## What a transaction has asked -/

/-- The body issued the statements of the log, got their replies, and has `y` left. -/
inductive Ran {α : Type} (x : Tx α) : List Entry → Tx α → Prop
  | nil : Ran x [] x
  | issue {log : List Entry} {st : Statement} {next : st.Reply → Tx α} (r : st.Reply)
      (locked : List String) (h : Ran x log (.issue st next)) :
    Ran x (⟨st, r, locked⟩ :: log) (next r)

variable {α β : Type}

theorem bind_issue (st : Statement) (next : st.Reply → Tx α) (f : α → Tx β) :
    (Tx.issue st next >>= f) = .issue st fun r => next r >>= f := rfl

theorem ran_bind {x : Tx α} {f : α → Tx β} {log : List Entry} {y : Tx β}
    (h : Ran (x >>= f) log y) :
    (∃ x', Ran x log x' ∧ y = x' >>= f) ∨
      ∃ l₁ l₂ a, log = l₂ ++ l₁ ∧ Ran x l₁ (.ret a) ∧ Ran (f a) l₂ y := by
  induction h with
  | nil => exact .inl ⟨x, .nil, rfl⟩
  | @issue log st next r locked h ih =>
      have hsecond : ∀ l₁ l₂ a, log = l₂ ++ l₁ → Ran x l₁ (.ret a) →
          Ran (f a) l₂ (.issue st next) →
          ∃ l₁ l₂ a, (⟨st, r, locked⟩ :: log : List Entry) = l₂ ++ l₁ ∧ Ran x l₁ (.ret a) ∧
            Ran (f a) l₂ (next r) := by
        rintro l₁ l₂ a rfl hx hf
        exact ⟨l₁, ⟨st, r, locked⟩ :: l₂, a, rfl, hx, .issue r locked hf⟩
      rcases ih with ⟨x', hx', heq⟩ | ⟨l₁, l₂, a, hlog, hx, hf⟩
      · cases x' with
        | ret a => exact .inr (hsecond log [] a rfl hx' (heq ▸ .nil))
        | throw e => cases heq
        | issue st' next' =>
            rw [bind_issue] at heq
            cases heq
            exact .inl ⟨next' r, .issue r locked hx', rfl⟩
      · exact .inr (hsecond l₁ l₂ a hlog hx hf)

theorem ran_bind_ret {x : Tx α} {f : α → Tx β} {log : List Entry} {b : β}
    (h : Ran (x >>= f) log (.ret b)) :
    ∃ l₁ l₂ a, log = l₂ ++ l₁ ∧ Ran x l₁ (.ret a) ∧ Ran (f a) l₂ (.ret b) := by
  rcases ran_bind h with ⟨x', hx', heq⟩ | hsecond
  · cases x' with
    | ret a => exact ⟨log, [], a, rfl, hx', heq ▸ .nil⟩
    | throw e => cases heq
    | issue st next => cases heq
  · exact hsecond

theorem ran_ret {a : α} {log : List Entry} {y : Tx α} (h : Ran (.ret a) log y) :
    log = [] ∧ y = .ret a := by
  induction h with
  | nil => exact ⟨rfl, rfl⟩
  | issue r locked h ih => cases ih.2

theorem ran_throw {e : Http.Errors.AppError} {log : List Entry} {y : Tx α}
    (h : Ran (.throw e) log y) : log = [] ∧ y = .throw e := by
  induction h with
  | nil => exact ⟨rfl, rfl⟩
  | issue r locked h ih => cases ih.2

theorem ran_single {st : Statement} {log : List Entry} {r : st.Reply}
    (h : Ran (.issue st .ret) log (.ret r)) : ∃ locked, log = [⟨st, r, locked⟩] := by
  have key : ∀ {log : List Entry} {y : Tx st.Reply}, Ran (.issue st .ret) log y →
      (log = [] ∧ y = .issue st .ret) ∨ ∃ a locked, log = [⟨st, a, locked⟩] ∧ y = .ret a := by
    intro log y h
    induction h with
    | nil => exact .inl ⟨rfl, rfl⟩
    | issue r locked h ih =>
        rcases ih with ⟨rfl, heq⟩ | ⟨a, locked, -, heq⟩
        · cases heq
          exact .inr ⟨r, locked, rfl, rfl⟩
        · cases heq
  rcases key h with ⟨-, heq⟩ | ⟨a, locked, hlog, heq⟩
  · cases heq
  · cases heq
    exact ⟨locked, hlog⟩

/-! ## The statements of the bodies -/

/-- An entry that writes nothing. -/
def IsRead (e : Entry) : Prop :=
  match e.statement with
  | .findUnique .. | .findFirst .. | .findMany .. => True
  | .create .. | .update .. | .delete .. | .deleteMany .. => False

/-- The loops over the ancestors look a path up, or create one of them as a directory. -/
def EnsuresOnly (projectId : String) (paths : List String) (e : Entry) : Prop :=
  (∃ p a, e.statement = .findUnique p a) ∨ ∃ a ∈ paths, e.statement = .create projectId a true

theorem ran_ensureDirectory {projectId a : String} {row : Option File} {log : List Entry} {u : Unit}
    (h : Ran (ensureDirectory projectId a row) log (.ret u)) :
    ∀ e ∈ log, e.statement = .create projectId a true := by
  cases row with
  | none =>
      obtain ⟨l₁, l₂, new, rfl, hcreate, hrest⟩ := ran_bind_ret h
      obtain ⟨locked, rfl⟩ := ran_single hcreate
      obtain ⟨rfl, -⟩ := ran_ret hrest
      intro e he
      rw [List.mem_singleton.mp he]
  | some d =>
      rw [ensureDirectory] at h
      split_ifs at h
      · obtain ⟨rfl, -⟩ := ran_ret h
        exact fun e he => absurd he List.not_mem_nil
      · cases (ran_throw h).2

theorem ran_parents {projectId : String} {f : String → Tx Unit}
    (hf : ∀ a log u, Ran (f a) log (.ret u) → ∀ e ∈ log, EnsuresOnly projectId [a] e)
    {paths : List String} {log : List Entry} {u : Unit}
    (h : Ran (paths.forM f) log (.ret u)) : ∀ e ∈ log, EnsuresOnly projectId paths e := by
  induction paths generalizing log with
  | nil =>
      obtain ⟨rfl, -⟩ := ran_ret h
      exact fun e he => absurd he List.not_mem_nil
  | cons a paths ih =>
      obtain ⟨l₁, l₂, _, rfl, hhere, hrest⟩ :=
        ran_bind_ret (f := fun _ => paths.forM f)
          (show Ran (f a >>= fun _ => paths.forM f) _ _ from h)
      intro e he
      rcases List.mem_append.mp he with he | he
      · exact (ih hrest e he).imp_right fun ⟨b, hb, hst⟩ => ⟨b, List.mem_cons_of_mem _ hb, hst⟩
      · refine (hf a l₁ _ hhere e he).imp_right fun ⟨b, hb, hst⟩ => ⟨b, ?_, hst⟩
        rw [List.mem_singleton.mp hb]
        exact List.mem_cons_self

theorem ran_createBody {projectId path : String} {isDir : Bool} {log : List Entry} {row : File}
    (h : Ran (createBody projectId path isDir) log (.ret row)) :
    ∀ e ∈ log, EnsuresOnly projectId (ancestorPaths path) e ∨
      e.statement = .create projectId path isDir := by
  obtain ⟨l₁, l, existing, rfl, hfind, hrest⟩ := ran_bind_ret h
  obtain ⟨locked, rfl⟩ := ran_single hfind
  split_ifs at hrest with hsome
  · cases (ran_throw hrest).2
  · obtain ⟨l₂, l₃, _, rfl, hloop, hlast⟩ := ran_bind_ret hrest
    obtain ⟨locked', rfl⟩ := ran_single hlast
    have hparents : ∀ e ∈ l₂, EnsuresOnly projectId (ancestorPaths path) e := by
      refine ran_parents (fun a log u ha e he => ?_) hloop
      obtain ⟨k₁, k₂, found, rfl, hread, hensure⟩ := ran_bind_ret ha
      obtain ⟨locked'', rfl⟩ := ran_single hread
      rcases List.mem_append.mp he with he | he
      · exact .inr ⟨a, List.mem_singleton_self a, ran_ensureDirectory hensure e he⟩
      · rw [List.mem_singleton.mp he]
        exact .inl ⟨_, _, rfl⟩
    intro e he
    rcases List.mem_append.mp he with he | he
    · rcases List.mem_append.mp he with he | he
      · rw [List.mem_singleton.mp he]
        exact .inr rfl
      · exact .inl (hparents e he)
    · rw [List.mem_singleton.mp he]
      exact .inl (.inl ⟨_, _, rfl⟩)

theorem ran_updates {entries : List (String × String)} {log : List Entry} {u : Unit}
    (h : Ran (entries.forM fun entry => do let _ ← update entry.1 entry.2) log (.ret u)) :
    (∀ e ∈ log, ∃ entry ∈ entries, e.statement = .update entry.1 entry.2) ∧
      ∀ entry ∈ entries, ∃ e ∈ log, e.statement = .update entry.1 entry.2 := by
  induction entries generalizing log with
  | nil =>
      obtain ⟨rfl, -⟩ := ran_ret h
      exact ⟨fun e he => absurd he List.not_mem_nil, fun e he => absurd he List.not_mem_nil⟩
  | cons entry entries ih =>
      obtain ⟨l₁, l₂, _, rfl, hhere, hrest⟩ :=
        ran_bind_ret (f := fun _ => entries.forM fun entry => do let _ ← update entry.1 entry.2)
          (show Ran ((do let _ ← update entry.1 entry.2) >>= fun _ => _) _ _ from h)
      obtain ⟨k₁, k₂, row, rfl, hup, hunit⟩ := ran_bind_ret hhere
      obtain ⟨locked, rfl⟩ := ran_single hup
      obtain ⟨rfl, -⟩ := ran_ret hunit
      obtain ⟨hfrom, hto⟩ := ih hrest
      constructor
      · intro e he
        rcases List.mem_append.mp he with he | he
        · obtain ⟨entry', hentry', hst⟩ := hfrom e he
          exact ⟨entry', List.mem_cons_of_mem _ hentry', hst⟩
        · rw [List.mem_singleton.mp he]
          exact ⟨entry, List.mem_cons_self, rfl⟩
      · intro entry' hentry'
        rcases List.mem_cons.mp hentry' with rfl | hentry'
        · exact ⟨_, List.mem_append_right _ (List.mem_singleton_self _), rfl⟩
        · obtain ⟨e, he, hst⟩ := hto entry' hentry'
          exact ⟨e, List.mem_append_left _ he, hst⟩

/-- A finished move wrote nothing, or it loaded the rows, made the missing directories and updated
the targets. -/
inductive MoveLog (projectId fileId newPath : String) : List Entry → Prop
  | idle {log : List Entry} (h : ∀ e ∈ log, IsRead e) : MoveLog projectId fileId newPath log
  | moved {file : File} {all : List File} {locked locked' : List String}
      {created updated : List Entry}
      (houtside : ¬ (file.isDir = true ∧ isDescendantOf newPath file.path = true))
      (hcreated : ∀ e ∈ created, EnsuresOnly projectId (ancestorPaths newPath) e)
      (hfrom : ∀ e ∈ updated, ∃ entry ∈ targets file newPath all,
        e.statement = .update entry.1 entry.2)
      (hto : ∀ entry ∈ targets file newPath all, ∃ e ∈ updated,
        e.statement = .update entry.1 entry.2) :
    MoveLog projectId fileId newPath (updated ++ created ++
      [⟨.findMany projectId, all, locked'⟩, ⟨.findFirst fileId projectId, some file, locked⟩])

theorem ran_moveBody {projectId fileId newPath : String} {log : List Entry} {row : File}
    (h : Ran (moveBody projectId fileId newPath) log (.ret row)) :
    MoveLog projectId fileId newPath log := by
  obtain ⟨l₁, l, found, rfl, hfind, hrest⟩ := ran_bind_ret h
  obtain ⟨locked, rfl⟩ := ran_single hfind
  cases found with
  | none => cases (ran_throw hrest).2
  | some file =>
      change Ran (ite _ _ _) l _ at hrest
      split_ifs at hrest with hsame hinside
      · obtain ⟨rfl, -⟩ := ran_ret hrest
        refine .idle fun e he => ?_
        rw [List.mem_singleton.mp he]
        trivial
      · cases (ran_throw hrest).2
      · obtain ⟨l₂, l', all, rfl, hmany, hloaded⟩ := ran_bind_ret hrest
        obtain ⟨locked', rfl⟩ := ran_single hmany
        split_ifs at hloaded with hexists
        · cases (ran_throw hloaded).2
        · obtain ⟨created, l'', _, rfl, hloop, hwrites⟩ := ran_bind_ret hloaded
          obtain ⟨updated, last, _, rfl, hup, hlast⟩ := ran_bind_ret hwrites
          obtain ⟨rfl, -⟩ := ran_ret hlast
          obtain ⟨hfrom, hto⟩ := ran_updates hup
          have hcreated : ∀ e ∈ created, EnsuresOnly projectId (ancestorPaths newPath) e :=
            ran_parents (fun a log u ha e he => .inr
              ⟨a, List.mem_singleton_self a, ran_ensureDirectory ha e he⟩) hloop
          rw [List.nil_append, List.append_assoc]
          exact .moved hinside hcreated hfrom hto

theorem ran_deleteBody {projectId fileId : String} {log : List Entry} {ids : List String}
    (h : Ran (deleteBody projectId fileId) log (.ret ids)) :
    ∀ e ∈ log, IsRead e ∨ (∃ id, e.statement = .delete id) ∨
      ∃ ids, e.statement = .deleteMany ids := by
  obtain ⟨l₁, l, found, rfl, hfind, hrest⟩ := ran_bind_ret h
  obtain ⟨locked, rfl⟩ := ran_single hfind
  have hfirst : ∀ e ∈ l, IsRead e ∨ (∃ id, e.statement = .delete id) ∨
      ∃ ids, e.statement = .deleteMany ids := by
    cases found with
    | none => cases (ran_throw hrest).2
    | some file =>
        change Ran (ite _ _ _) l _ at hrest
        split_ifs at hrest
        · obtain ⟨l₂, l', all, rfl, hmany, hloaded⟩ := ran_bind_ret hrest
          obtain ⟨locked', rfl⟩ := ran_single hmany
          obtain ⟨l₃, last, u, rfl, hdelete, hlast⟩ := ran_bind_ret hloaded
          obtain ⟨locked'', rfl⟩ := ran_single hdelete
          obtain ⟨rfl, -⟩ := ran_ret hlast
          intro e he
          rcases List.mem_append.mp he with he | he
          · rw [List.mem_singleton.mp he]
            exact .inr (.inr ⟨_, rfl⟩)
          · rw [List.mem_singleton.mp he]
            exact .inl trivial
        · obtain ⟨l₃, last, u, rfl, hdelete, hlast⟩ := ran_bind_ret hrest
          obtain ⟨locked'', rfl⟩ := ran_single hdelete
          obtain ⟨rfl, -⟩ := ran_ret hlast
          intro e he
          rw [List.mem_singleton.mp he]
          exact .inr (.inl ⟨_, rfl⟩)
  intro e he
  rcases List.mem_append.mp he with he | he
  · exact hfirst e he
  · rw [List.mem_singleton.mp he]
    exact .inl trivial

/-! ## What the replies say -/

/-- The rows a body works on afterwards. -/
def loaded : Entry → List File
  | ⟨.findFirst .., row, _⟩ => row.toList
  | ⟨.findMany .., rows, _⟩ => rows
  | ⟨.findUnique .., _, _⟩ | ⟨.create .., _, _⟩ | ⟨.update .., _, _⟩ | ⟨.delete .., _, _⟩
  | ⟨.deleteMany .., _, _⟩ => []

/-- What is true of a reply whatever commits later. -/
def AnswerOk (projectId : String) (issued : List Card) (older : List Entry) : Entry → Prop
  | ⟨.findFirst id _, row, _⟩ => ∀ r ∈ row.toList, r.id = id ∧ card r ∈ issued
  | ⟨.findMany p, rows, _⟩ =>
    (rows.map File.id).Nodup ∧ (∀ row ∈ rows, row.projectId = p ∧ card row ∈ issued) ∧
      (p = projectId → (∀ e ∈ older, IsRead e) →
        ∀ row ∈ rows, ∀ a, isDescendantOf row.path a = true → HasDir projectId rows a)
  | ⟨.create p path isDir, row, _⟩ =>
    row.projectId = p ∧ row.path = path ∧ row.isDir = isDir ∧ card row ∈ issued ∧
      ∀ e ∈ older, ∀ r ∈ loaded e, r.id ≠ row.id
  | ⟨.findUnique .., _, _⟩ | ⟨.update .., _, _⟩ | ⟨.delete .., _, _⟩
  | ⟨.deleteMany .., _, _⟩ => True

def Answered (projectId : String) (issued : List Card) : List Entry → Prop
  | [] => True
  | e :: older => AnswerOk projectId issued older e ∧ Answered projectId issued older

variable {projectId : String}

theorem AnswerOk.mono {issued issued' : List Card} (hsub : issued ⊆ issued') {older : List Entry}
    {e : Entry} (h : AnswerOk projectId issued older e) : AnswerOk projectId issued' older e := by
  obtain ⟨st, reply, locked⟩ := e
  cases st with
  | findFirst => exact fun r hr => ⟨(h r hr).1, hsub (h r hr).2⟩
  | findMany => exact ⟨h.1, fun row hrow => ⟨(h.2.1 row hrow).1, hsub (h.2.1 row hrow).2⟩, h.2.2⟩
  | create => exact ⟨h.1, h.2.1, h.2.2.1, hsub h.2.2.2.1, h.2.2.2.2⟩
  | findUnique | update | delete | deleteMany => trivial

theorem Answered.mono {issued issued' : List Card} (hsub : issued ⊆ issued') {log : List Entry}
    (h : Answered projectId issued log) : Answered projectId issued' log := by
  induction log with
  | nil => trivial
  | cons e older ih => exact ⟨h.1.mono hsub, ih h.2⟩

theorem Answered.of_append {issued : List Card} {l₂ l₁ : List Entry}
    (h : Answered projectId issued (l₂ ++ l₁)) : Answered projectId issued l₁ := by
  induction l₂ with
  | nil => exact h
  | cons e l₂ ih => exact ih h.2

/-- Every reply in a log, with what came before it. -/
theorem Answered.of_mem {issued : List Card} {log : List Entry} (h : Answered projectId issued log)
    {e : Entry} (he : e ∈ log) :
    ∃ newer older, log = newer ++ e :: older ∧ AnswerOk projectId issued older e := by
  obtain ⟨newer, older, rfl⟩ := List.append_of_mem he
  exact ⟨newer, older, rfl, h.of_append.1⟩

theorem Answered.of_mem_append {issued : List Card} {l₂ l₁ : List Entry}
    (h : Answered projectId issued (l₂ ++ l₁)) {e : Entry} (he : e ∈ l₂) :
    ∃ older, (∀ e' ∈ l₁, e' ∈ older) ∧ AnswerOk projectId issued older e := by
  obtain ⟨newer, older, rfl⟩ := List.append_of_mem he
  rw [List.append_assoc, List.cons_append] at h
  exact ⟨older ++ l₁, fun e' he' => List.mem_append_right _ he', h.of_append.1⟩

theorem inserts_of_create {issued : List Card} {older : List Entry} {e : Entry}
    {p path : String} {isDir : Bool} (he : e.statement = .create p path isDir)
    (h : AnswerOk projectId issued older e) :
    ∃ row, e.inserts = [row] ∧ row.projectId = p ∧ row.path = path ∧ row.isDir = isDir := by
  obtain ⟨st, reply, locked⟩ := e
  cases he
  exact ⟨reply, rfl, h.1, h.2.1, h.2.2.1⟩

theorem create_of_inserts {issued : List Card} {older : List Entry} {e : Entry} {row : File}
    (hrow : row ∈ e.inserts) (h : AnswerOk projectId issued older e) :
    e.statement = .create row.projectId row.path row.isDir ∧ card row ∈ issued ∧
      ∀ e' ∈ older, ∀ r ∈ loaded e', r.id ≠ row.id := by
  obtain ⟨st, reply, locked⟩ := e
  cases st with
  | create p path isDir =>
      obtain rfl := List.mem_singleton.mp hrow
      obtain ⟨rfl, rfl, rfl, hcard, hfresh⟩ := h
      exact ⟨rfl, hcard, hfresh⟩
  | findUnique | findFirst | findMany | update | delete | deleteMany => cases hrow

theorem card_view {issued : List Card} {t v : Table} {log : List Entry}
    (ht : ∀ row ∈ t.rows, card row ∈ issued) (hans : Answered projectId issued log)
    (h : view t log = some v) : ∀ row ∈ v.rows, card row ∈ issued := by
  intro row hrow
  rw [view_rows h, List.mem_append, List.mem_filterMap] at hrow
  rcases hrow with ⟨old, hold, hfate⟩ | hrow
  · rw [card_fate hfate]
    exact ht old hold
  · obtain ⟨e, he, new, hnew, hcard⟩ := card_inserted hrow
    obtain ⟨_, older, -, hok⟩ := hans.of_mem he
    rw [hcard]
    exact (create_of_inserts hnew hok).2.1

theorem view_of_reads {t : Table} {log : List Entry} (h : ∀ e ∈ log, IsRead e) :
    view t log = some t := by
  induction log with
  | nil => rfl
  | cons e older ih =>
      rw [view, ih fun e' he' => h e' (List.mem_cons_of_mem _ he')]
      obtain ⟨st, reply, locked⟩ := e
      have hread := h _ List.mem_cons_self
      cases st with
      | findUnique | findFirst | findMany => rfl
      | create | update | delete | deleteMany => exact hread.elim

theorem card_loaded {issued : List Card} {log : List Entry} (h : Answered projectId issued log)
    {e : Entry} (he : e ∈ log) {row : File} (hrow : row ∈ loaded e) : card row ∈ issued := by
  obtain ⟨_, older, -, hok⟩ := h.of_mem he
  obtain ⟨st, reply, locked⟩ := e
  cases st with
  | findFirst => exact (hok row hrow).2
  | findMany => exact (hok.2.1 row hrow).2
  | findUnique | create | update | delete | deleteMany => cases hrow

theorem answerOk_of_run {issued : List Card} {t v v' : Table} {older : List Entry}
    {out : Outside} {st : Statement} {r : st.Reply} {locked : List String}
    (hclosed : Closed projectId t) (hcards : ∀ row ∈ t.rows, card row ∈ issued)
    (hans : Answered projectId issued older) (hview : view t older = some v)
    (hrun : st.run out v = .ok (r, v'))
    (hfresh : ∀ row ∈ (Entry.mk st r locked).inserts, row.id ∉ issued.map Card.id) :
    AnswerOk projectId ((Entry.mk st r locked).inserts.map card ++ issued) older
      ⟨st, r, locked⟩ := by
  have hvcards := card_view hcards hans hview
  cases st with
  | findFirst id p =>
      cases hrun
      intro row hrow
      obtain ⟨hmem, hid, -⟩ := findFirst_eq_some (Option.mem_toList.mp hrow)
      exact ⟨hid, hvcards row hmem⟩
  | findMany p =>
      cases hrun
      have hperm := out.order_perm (FileTable.findMany v p)
      have hmem : ∀ row, row ∈ out.order (FileTable.findMany v p) ↔
          row ∈ v.rows ∧ row.projectId = p := fun row => hperm.mem_iff.trans mem_findMany
      refine ⟨?_, fun row hrow => ?_, ?_⟩
      · exact (hperm.map File.id).nodup_iff.mpr (v.ids.sublist (List.filter_sublist.map _))
      · exact ⟨((hmem row).mp hrow).2, hvcards row ((hmem row).mp hrow).1⟩
      · rintro rfl hreads row hrow a ha
        rw [view_of_reads hreads, Option.some.injEq] at hview
        subst hview
        obtain ⟨hrow, hp⟩ := (hmem row).mp hrow
        exact (hclosed row hrow hp a ha).mono fun d hd hdp => (hmem d).mpr ⟨hd, hdp⟩
  | create p path isDir =>
      simp only [Statement.run] at hrun
      cases hc : FileTable.create v (out.newRow p path isDir) with
      | error e =>
          rw [hc] at hrun
          cases hrun
      | ok w =>
          rw [hc] at hrun
          cases hrun
          refine ⟨rfl, rfl, rfl, List.mem_append_left _ List.mem_cons_self,
            fun e he row hrow hid => ?_⟩
          have hissued := card_loaded hans he hrow
          exact hfresh _ List.mem_cons_self (hid ▸ List.mem_map_of_mem hissued)
  | findUnique | update | delete | deleteMany => trivial

end CollabIDE.Files.TransactionLog
