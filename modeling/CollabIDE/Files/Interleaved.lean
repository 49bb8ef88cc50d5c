import CollabIDE.Files.Service
import CollabIDE.Lib.Machine
/-!
# Transactions on one project, statement by statement

Any number of the service's transactions run at once.  A statement runs on what
is committed when it starts plus what its own transaction wrote, waits for a row
or a unique key another open transaction has written, and takes effect for the
others with the commit.  The log of a transaction, newest entry first, is what
the database holds of it until then.
-/

namespace CollabIDE.Files.Interleaved

open CollabIDE.Files.FileTable CollabIDE.Files.Paths CollabIDE.Files.Transaction
open CollabIDE.Files.Service CollabIDE.Lib.Machine

/-- A statement with its reply and the ids of the rows it locked. -/
structure Entry where
  statement : Statement
  reply : statement.Reply
  locked : List String

/-- The rows a statement writes in a table. -/
def Statement.locks (t : Table) : (s : Statement) → s.Reply → List String
  | .create .., row => [row.id]
  | .update id _, _ | .delete id, _ => [id]
  | .deleteMany ids, _ => ids.filter fun id => id ∈ t.rows.map File.id
  | .findUnique .., _ | .findFirst .., _ | .findMany .., _ => []

/-- The unique keys it claims. -/
def Entry.claims : Entry → List (String × String)
  | ⟨.create .., row, _⟩ | ⟨.update .., row, _⟩ => [row.key]
  | _ => []

/-- Two statements of different transactions the database does not let stand side by side. -/
def Entry.Conflicts (e other : Entry) : Prop :=
  (∃ id ∈ e.locked, id ∈ other.locked) ∨ ∃ key ∈ e.claims, key ∈ other.claims

instance (e other : Entry) : Decidable (e.Conflicts other) :=
  inferInstanceAs (Decidable ((∃ id ∈ _, _) ∨ ∃ key ∈ _, _))

/-- What an entry does to a table. -/
def Entry.apply (t : Table) : Entry → Option Table
  | ⟨.create .., row, _⟩ => (FileTable.create t row).toOption
  | ⟨.update id path, row, _⟩ =>
    (FileTable.update t id path row.updatedAt).toOption.map Prod.snd
  | ⟨.delete id, _, _⟩ => (FileTable.delete t id).toOption
  | ⟨.deleteMany ids, _, _⟩ => some (FileTable.deleteMany t ids)
  | ⟨.findUnique .., _, _⟩ | ⟨.findFirst .., _, _⟩ | ⟨.findMany .., _, _⟩ => some t

/-- The table a transaction sees. -/
def view (committed : Table) : List Entry → Option Table
  | [] => some committed
  | e :: older => (view committed older).bind e.apply

/-- The three calls, with their paths already validated. -/
inductive Request
  | createFile (path : String) (isDir : Bool)
  | moveFile (fileId newPath : String)
  | deleteFile (fileId : String)
  deriving DecidableEq

def Request.body (projectId : String) : Request → Tx Unit
  | .createFile path isDir => do
    let _ ← createBody projectId path isDir
  | .moveFile fileId newPath => do
    let _ ← moveBody projectId fileId newPath
  | .deleteFile fileId => do
    let _ ← deleteBody projectId fileId

/-- An open transaction: what is left of its body, and its log. -/
structure Txn where
  request : Request
  rest : Tx Unit
  log : List Entry

/-- What never changes of a row. -/
structure Card where
  id : String
  projectId : String
  isDir : Bool
  deriving DecidableEq

def card (row : File) : Card := ⟨row.id, row.projectId, row.isDir⟩

/-- `issued` has the card of every row there ever was: `cuid()` gives no id twice. -/
structure State where
  committed : Table
  txns : List (Option Txn)
  issued : List Card

def start (t : Table) : State := ⟨t, [], t.rows.map card⟩

inductive Event
  | begin (request : Request)
  | statement (i : Nat) (out : Outside)
  | commit (i : Nat)
  | abort (i : Nat)

/-- The rows an entry inserts. -/
def Entry.inserts : Entry → List File
  | ⟨.create .., row, _⟩ => [row]
  | _ => []

/-- A new id is new, and nothing another open transaction wrote is in the way. -/
def Allowed (s : State) (i : Nat) (e : Entry) : Prop :=
  (∀ row ∈ e.inserts, row.id ∉ s.issued.map Card.id) ∧
    ∀ other ∈ (s.txns.set i none).reduceOption, ∀ e' ∈ other.log, ¬ e.Conflicts e'

instance (s : State) (i : Nat) (e : Entry) : Decidable (Allowed s i e) :=
  inferInstanceAs (Decidable ((∀ row ∈ _, _) ∧ ∀ other ∈ _, ∀ e' ∈ _, _))

/-- A statement the database refuses takes no step: what is left to its transaction is to abort. -/
def runStatement (s : State) (i : Nat) (out : Outside) (txn : Txn) : Option State :=
  match txn.rest with
  | .issue st next =>
    (view s.committed txn.log).bind fun v =>
      match st.run out v with
      | .error _ => none
      | .ok (r, _) =>
        let e : Entry := ⟨st, r, Statement.locks v st r⟩
        if Allowed s i e then
          some { s with
            txns := s.txns.set i (some ⟨txn.request, next r, e :: txn.log⟩)
            issued := e.inserts.map card ++ s.issued }
        else none
  | .ret _ | .throw _ => none

/-- What a finished body wrote becomes visible. -/
def runCommit (s : State) (i : Nat) (txn : Txn) : Option State :=
  match txn.rest with
  | .ret _ => (view s.committed txn.log).map fun v =>
      { s with committed := v, txns := s.txns.set i none }
  | .throw _ | .issue .. => none

def step (projectId : String) (s : State) : Event → Option State
  | .begin request =>
    some { s with txns := s.txns ++ [some ⟨request, request.body projectId, []⟩] }
  | .statement i out => s.txns[i]?.join.bind (runStatement s i out)
  | .commit i => s.txns[i]?.join.bind (runCommit s i)
  | .abort i => s.txns[i]?.join.map fun _ => { s with txns := s.txns.set i none }

/-! ## What a step can do -/

/-- The forms of a step. -/
inductive Took (projectId : String) (s : State) : Event → State → Prop
  | begin (request : Request) :
    Took projectId s (.begin request)
      { s with txns := s.txns ++ [some ⟨request, request.body projectId, []⟩] }
  | statement {i : Nat} {out : Outside} {txn : Txn} {st : Statement} {next : st.Reply → Tx Unit}
      {v v' : Table} {r : st.Reply} (htxn : some txn ∈ s.txns) (hrest : txn.rest = .issue st next)
      (hview : view s.committed txn.log = some v) (hrun : st.run out v = .ok (r, v'))
      (hallowed : Allowed s i ⟨st, r, Statement.locks v st r⟩) :
    Took projectId s (.statement i out)
      { s with
        txns := s.txns.set i
          (some ⟨txn.request, next r, ⟨st, r, Statement.locks v st r⟩ :: txn.log⟩)
        issued := (Entry.mk st r (Statement.locks v st r)).inserts.map card ++ s.issued }
  | commit {i : Nat} {txn : Txn} {v : Table} (hat : s.txns[i]? = some (some txn))
      (hrest : txn.rest = .ret ()) (hview : view s.committed txn.log = some v) :
    Took projectId s (.commit i) { s with committed := v, txns := s.txns.set i none }
  | abort (i : Nat) : Took projectId s (.abort i) { s with txns := s.txns.set i none }

theorem took {projectId : String} {s s' : State} {e : Event} (h : step projectId s e = some s') :
    Took projectId s e s' := by
  cases e with
  | begin request =>
      cases h
      exact .begin request
  | statement i out =>
      obtain ⟨txn, htxn, hrun⟩ := Option.bind_eq_some_iff.mp h
      have hat := Option.join_eq_some_iff.mp htxn
      unfold runStatement at hrun
      split at hrun
      · next st next hrest =>
          obtain ⟨v, hview, hrun⟩ := Option.bind_eq_some_iff.mp hrun
          split at hrun
          · cases hrun
          · next r v' hst =>
              dsimp only at hrun
              split_ifs at hrun with hallowed
              cases hrun
              exact .statement (List.mem_of_getElem? hat) hrest hview hst hallowed
      · cases hrun
      · cases hrun
  | commit i =>
      obtain ⟨txn, htxn, hrun⟩ := Option.bind_eq_some_iff.mp h
      have hat := Option.join_eq_some_iff.mp htxn
      unfold runCommit at hrun
      split at hrun
      · next u hrest =>
          obtain ⟨v, hview, rfl⟩ := Option.map_eq_some_iff.mp hrun
          exact .commit hat hrest hview
      · cases hrun
      · cases hrun
  | abort i =>
      obtain ⟨txn, -, rfl⟩ := Option.map_eq_some_iff.mp h
      exact .abort i

end CollabIDE.Files.Interleaved
