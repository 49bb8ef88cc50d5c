import CollabIDE.Files.FileTable
/-!
# Transactions on the `File` table

The body of a `prisma.$transaction` is a program that issues one statement
after another and goes on with its reply.  Run alone it takes each statement on
the table its own statements left, and what it wrote counts only if it returns.
-/

namespace CollabIDE.Files.Transaction

open CollabIDE.Files.FileTable CollabIDE.Http.Errors

inductive Statement
  | findUnique (projectId path : String)
  | findFirst (id projectId : String)
  | findMany (projectId : String)
  | create (projectId path : String) (isDir : Bool)
  | update (id path : String)
  | delete (id : String)
  | deleteMany (ids : List String)
  deriving DecidableEq

/-- What a statement answers with. -/
@[reducible] def Statement.Reply : Statement → Type
  | .findUnique .. | .findFirst .. => Option File
  | .findMany .. => List File
  | .create .. | .update .. => File
  | .delete .. | .deleteMany .. => Unit

/-- What the statements take from outside the table: the id and the time `create` and `update`
give to the row they write at a path, and the order in which `findMany`, which asks for none,
returns the rows. -/
structure Outside where
  cuid : String → String
  now : String → Nat
  order : List File → List File
  order_perm : ∀ rows, (order rows).Perm rows

/-- The row `file.create` inserts. -/
def Outside.newRow (out : Outside) (projectId path : String) (isDir : Bool) : File :=
  { id := out.cuid path, projectId, path, content := "", isDir,
    createdAt := out.now path, updatedAt := out.now path }

/-- One statement on a table. -/
def Statement.run (out : Outside) (t : Table) :
    (s : Statement) → Except PrismaError (s.Reply × Table)
  | .findUnique projectId path => .ok (FileTable.findUnique t projectId path, t)
  | .findFirst id projectId => .ok (FileTable.findFirst t id projectId, t)
  | .findMany projectId => .ok (out.order (FileTable.findMany t projectId), t)
  | .create projectId path isDir =>
    (FileTable.create t (out.newRow projectId path isDir)).map fun u =>
      (out.newRow projectId path isDir, u)
  | .update id path => FileTable.update t id path (out.now path)
  | .delete id => (FileTable.delete t id).map fun u => ((), u)
  | .deleteMany ids => .ok ((), FileTable.deleteMany t ids)

/-- The body of a transaction. -/
inductive Tx (α : Type) : Type
  | ret (a : α)
  | throw (e : AppError)
  | issue (s : Statement) (next : s.Reply → Tx α)

variable {α β : Type}

def Tx.bind : Tx α → (α → Tx β) → Tx β
  | .ret a, f => f a
  | .throw e, _ => .throw e
  | .issue s next, f => .issue s fun r => (next r).bind f

instance : Monad Tx where
  pure := Tx.ret
  bind := Tx.bind

def findUnique (projectId path : String) : Tx (Option File) :=
  .issue (.findUnique projectId path) .ret
def findFirst (id projectId : String) : Tx (Option File) :=
  .issue (.findFirst id projectId) .ret
def findMany (projectId : String) : Tx (List File) := .issue (.findMany projectId) .ret
def create (projectId path : String) (isDir : Bool) : Tx File :=
  .issue (.create projectId path isDir) .ret
def update (id path : String) : Tx File := .issue (.update id path) .ret
def delete (id : String) : Tx Unit := .issue (.delete id) .ret
def deleteMany (ids : List String) : Tx Unit := .issue (.deleteMany ids) .ret

/-- Why a call of the service throws. -/
inductive Failure
  | app (e : AppError)
  | prisma (e : PrismaError)
  deriving DecidableEq

/-- The body run alone, statement after statement. -/
def Tx.exec (out : Outside) : Tx α → Table → Except Failure (α × Table)
  | .ret a, t => .ok (a, t)
  | .throw e, _ => .error (.app e)
  | .issue s next, t =>
    match s.run out t with
    | .ok (r, u) => (next r).exec out u
    | .error e => .error (.prisma e)

/-- `prisma.$transaction`: the table is left as it was unless the body returns. -/
def transaction (out : Outside) (body : Tx α) (t : Table) : Except Failure α × Table :=
  match body.exec out t with
  | .ok (a, u) => (.ok a, u)
  | .error e => (.error e, t)

/-! ## Running a body alone -/

theorem exec_bind (out : Outside) (x : Tx α) (f : α → Tx β) (t : Table) :
    (x >>= f).exec out t = x.exec out t >>= fun r => (f r.1).exec out r.2 := by
  induction x generalizing t with
  | ret a => rfl
  | throw e => rfl
  | issue s next ih =>
      change (Tx.issue s fun r => (next r).bind f).exec out t = _
      simp only [Tx.exec]
      cases s.run out t with
      | error e => rfl
      | ok r => exact ih r.1 r.2

theorem exec_bind_eq_ok {out : Outside} {x : Tx α} {f : α → Tx β} {t v : Table} {b : β} :
    (x >>= f).exec out t = .ok (b, v) ↔
      ∃ a u, x.exec out t = .ok (a, u) ∧ (f a).exec out u = .ok (b, v) := by
  rw [exec_bind]
  cases h : x.exec out t with
  | error e => simp [bind, Except.bind]
  | ok r =>
      obtain ⟨a, u⟩ := r
      simp [bind, Except.bind]

theorem exec_findUnique (out : Outside) (projectId path : String) (t : Table) :
    (findUnique projectId path).exec out t = .ok (FileTable.findUnique t projectId path, t) := rfl

theorem exec_findFirst (out : Outside) (id projectId : String) (t : Table) :
    (findFirst id projectId).exec out t = .ok (FileTable.findFirst t id projectId, t) := rfl

theorem exec_findMany (out : Outside) (projectId : String) (t : Table) :
    (findMany projectId).exec out t = .ok (out.order (FileTable.findMany t projectId), t) := rfl

theorem exec_create_eq_ok {out : Outside} {projectId path : String} {isDir : Bool} {t u : Table}
    {row : File} :
    (create projectId path isDir).exec out t = .ok (row, u) ↔
      row = out.newRow projectId path isDir ∧
        FileTable.create t (out.newRow projectId path isDir) = .ok u := by
  simp only [create, Tx.exec, Statement.run]
  cases FileTable.create t (out.newRow projectId path isDir) with
  | error e => simp [Except.map]
  | ok v => simp [Except.map, eq_comm]

theorem exec_update (out : Outside) (id path : String) (t : Table) :
    (update id path).exec out t = (FileTable.update t id path (out.now path)).mapError .prisma := by
  simp only [update, Tx.exec, Statement.run]
  cases FileTable.update t id path (out.now path) <;> rfl

theorem exec_delete_eq_ok {out : Outside} {id : String} {t u : Table} {r : Unit} :
    (delete id).exec out t = .ok (r, u) ↔ FileTable.delete t id = .ok u := by
  simp only [delete, Tx.exec, Statement.run]
  cases FileTable.delete t id with
  | error e => simp [Except.map]
  | ok v => simp [Except.map]

end CollabIDE.Files.Transaction
