import CollabIDE.Lib.PathPrefix
/-!
# The execution contract

`languages.ts`: what the server and the runner agree on to run code, that is
the language registry, the limits both sides enforce, the files of a run and
the frames it produces.
-/

namespace CollabIDE.Shared.Languages

open CollabIDE.Lib.PathPrefix

structure LanguageConfig where
  label : String
  image : String
  cmd : List String
  extensions : List String
  deriving DecidableEq

/-- The registry, keyed by language id. -/
def languages : List (String × LanguageConfig) :=
  [("python", ⟨"Python", "collab-sandbox-python:1", ["python", "-u"], ["py"]⟩),
    ("javascript", ⟨"JavaScript", "collab-sandbox-node:1", ["node"], ["js", "mjs", "cjs"]⟩)]

/-- The config for an id off the wire, or `none` if it names no language. -/
def languageById (id : String) : Option LanguageConfig := languages.lookup id

/-- Total output bytes before a run is truncated and killed. -/
def maxOutputBytes : Nat := 1000000

/-- One file as the runner receives it. -/
structure RunFile where
  path : String
  content : String
  deriving DecidableEq

inductive RunStatus
  | ok
  | timeout
  | error
  deriving DecidableEq

/-- One message on the channel of a run. -/
inductive RunFrame
  | stdout (data : String)
  | stderr (data : String)
  | exit (status : RunStatus) (exitCode : Option Int) (durationMs : Int) (truncated : Bool)
      (message : Option String)
  deriving DecidableEq

/-- `frame.type === 'exit'`. -/
def RunFrame.isExit : RunFrame → Bool
  | .exit .. => true
  | _ => false

/-! ## Jobs -/

/-- Input caps of a run, enforced before anything is enqueued. -/
def maxRunFiles : Nat := 100
def maxRunInputBytes : Nat := 1000000

/-- The job body: the server writes it, the runner reads it. -/
structure RunJob where
  jobId : String
  projectId : String
  languageId : String
  entrypoint : String
  files : List RunFile
  deriving DecidableEq

/-! ## Resolvers -/

/-- `EXTENSION_TO_ID`, its entries in the order they are set. -/
def extensionToId : List (String × String) :=
  languages.flatMap fun entry => entry.2.extensions.map fun extension => (extension, entry.1)

/-- The extension without its dot, put through `toLowerCase`, or `none` if there is none. -/
def extensionOf (toLowerCase : String → String) (path : String) : Option String :=
  let base := afterLast '/' path.toList
  let extension := afterLast '.' base
  -- The dot is neither missing, nor the first character, nor the last.
  if '.' ∉ base ∨ beforeLast '.' base = [] ∨ extension = [] then none
  else some (toLowerCase (String.ofList extension))

/-- The id of the language that runs a file; in a map the entry set last counts. -/
def languageForPath (toLowerCase : String → String) (path : String) : Option String :=
  (extensionOf toLowerCase path).bind fun extension => extensionToId.reverse.lookup extension

theorem languageById_of_extension : ∀ entry ∈ extensionToId,
    ∃ config, languageById entry.2 = some config ∧ entry.1 ∈ config.extensions := by
  have hall : extensionToId.all (fun entry =>
      ((languageById entry.2).map fun config => decide (entry.1 ∈ config.extensions)).getD false) =
      true := by decide
  intro entry hentry
  have hconfig := List.all_eq_true.mp hall entry hentry
  cases hid : languageById entry.2 with
  | none => simp [hid] at hconfig
  | some config => exact ⟨config, rfl, by simpa [hid] using hconfig⟩

theorem languageById_of_languageForPath {toLowerCase : String → String} {path id : String}
    (h : languageForPath toLowerCase path = some id) :
    ∃ config, languageById id = some config ∧
      ∃ extension ∈ config.extensions, extensionOf toLowerCase path = some extension := by
  obtain ⟨extension, hextension, hlookup⟩ := Option.bind_eq_some_iff.mp h
  have hmem : (extension, id) ∈ extensionToId := by
    obtain ⟨front, back, heq, -⟩ := List.lookup_eq_some_iff.mp hlookup
    rw [← List.mem_reverse, heq]
    exact List.mem_append_right _ List.mem_cons_self
  obtain ⟨config, hid, hin⟩ := languageById_of_extension _ hmem
  exact ⟨config, hid, extension, hin, hextension⟩

end CollabIDE.Shared.Languages
