import CollabIDE.Lib.Machine
import CollabIDE.Lib.SharedCursor
import CollabIDE.Search.Match
/-!
# The search of a project

`useProjectSearch` reads the files of a project with six workers on a shared
cursor and publishes what it has found so far.  A run of its effect belongs to
one query; a new query cancels it, and its workers, its requests and the cache
they fill live on beside those of the next run.
-/

namespace CollabIDE.Search.ProjectSearch

open CollabIDE.Lib.Machine CollabIDE.Lib.SharedCursor
open CollabIDE.Lib.Substring CollabIDE.Search.Match CollabIDE.Search.Strings

def CONCURRENCY : Nat := 6
def MAX_FILES_SCANNED : Nat := 300
def MAX_MATCHES_PER_FILE : Nat := 5
def MAX_CONTENT_MATCHES : Nat := 120
def MIN_CONTENT_QUERY : Nat := 2
def FLUSH_MS : Nat := 90
def MAX_SEARCHABLE_BYTES : Nat := 512000

/-! ## What is searched -/

abbrev FlatNode := Files.Nodes.FlatNode Text Text

def IGNORED_SEGMENTS : List Text :=
  ["node_modules", ".git", "dist", "build", "out", "coverage", "vendor", "target", "__pycache__",
    ".venv", "venv", ".next", ".cache", ".turbo"].map units

def BINARY_EXTENSIONS : List Text :=
  ["png", "jpg", "jpeg", "gif", "webp", "avif", "bmp", "ico", "icns", "tiff", "pdf", "zip", "gz",
    "tgz", "bz2", "xz", "7z", "rar", "jar", "war", "mp3", "mp4", "wav", "ogg", "webm", "mov",
    "avi", "mkv", "flac", "woff", "woff2", "ttf", "otf", "eot", "exe", "dll", "so", "dylib", "bin",
    "wasm", "class", "pyc", "o", "a", "db", "sqlite", "sqlite3", "lock"].map units

/-- A NUL in the first 4096 units. -/
def looksBinary (content : Text) : Bool := 0 ∈ content.take 4096

section Lower

variable (C : Casing)

def extensionOf (path : Text) : Text :=
  let name := path.drop (nameStart path)
  match lastIndexOf name (units ".") with
  | some (dot + 1) => toLowerCase C (name.drop (dot + 2))
  | some 0 | none => []

def isContentSearchable (path : Text) : Bool :=
  (path.splitOn slash).all (· ∉ IGNORED_SEGMENTS) && extensionOf C path ∉ BINARY_EXTENSIONS

end Lower

/-! ## The state -/

structure ContentHit where
  node : FlatNode
  found : ContentMatch
  deriving DecidableEq

inductive ContentState
  | idle
  | searching
  | done
  deriving DecidableEq

/-- What the palette is given, without the file names. -/
structure Result where
  contents : List ContentHit
  contentState : ContentState
  scanned : Nat
  total : Nat
  skipped : Nat
  isPartial : Bool
  capped : Bool
  error : Option Text
  deriving DecidableEq

def Result.idle : Result := ⟨[], .idle, 0, 0, 0, false, false, none⟩

/-- Where a worker is: in `read`, waiting for the response to a request, behind `read` with what it
returned, or at its end. -/
inductive Worker
  | reading (url : Text) (node : FlatNode)
  | resuming (node : FlatNode) (content : Option Text)
  | returned
  deriving DecidableEq

/-- The file a worker has in hand. -/
def Worker.node? : Worker → Option FlatNode
  | .reading _ node | .resuming node _ => some node
  | .returned => none

/-- The variables of one run of the effect.  `handed` is their history: the files with what `read`
returned for them, in the order they were counted. -/
structure Effect where
  projectId : Text
  trimmed : Text
  candidates : List FlatNode
  cancelled : Bool
  scanned : Nat
  skipped : Nat
  hits : List ContentHit
  capped : Bool
  error : Option Text
  lastFlush : Nat
  cursor : Nat
  workers : List Worker
  finished : Bool
  handed : List (FlatNode × Option Text)
  deriving DecidableEq

def Effect.targets (e : Effect) : List FlatNode := e.candidates.take MAX_FILES_SCANNED

/-- The files the workers have in hand. -/
def Effect.busy (e : Effect) : List FlatNode := e.workers.filterMap Worker.node?

/-- `cache` has the newest entry of a key first.  `current` is the run of the effect whose cleanup
is still to come. -/
structure State where
  cache : List (Text × Text)
  result : Result
  effects : List Effect
  current : Option Nat
  mounted : Bool
  deriving DecidableEq

def start : State := ⟨[], .idle, [], none, true⟩

/-! ## The workers -/

def Effect.result (e : Effect) (state : ContentState) : Result where
  contents := e.hits.take MAX_CONTENT_MATCHES
  contentState := state
  scanned := e.scanned
  total := e.targets.length
  skipped := e.skipped
  isPartial := e.targets.length < e.candidates.length
  capped := e.capped
  error := e.error

def publish (now : Nat) (state : ContentState) (force : Bool) (e : Effect) (r : Result) :
    Effect × Result :=
  if !force && now - e.lastFlush < FLUSH_MS then (e, r)
  else ({ e with lastFlush := now }, e.result state)

def cacheKey (node : FlatNode) : Text := node.id ++ units "@" ++ node.updatedAt

/-- `read`, to its first await. -/
def read (cache : List (Text × Text)) (projectId : Text) (node : FlatNode) : Worker :=
  match cache.lookup (cacheKey node) with
  | some cached => .resuming node (some cached)
  | none => .reading (units "/projects/" ++ projectId ++ units "/files/" ++ node.id) node

/-- The loop of a worker, from its top to the next await. -/
def pull (cache : List (Text × Text)) (e : Effect) : Effect × Worker :=
  if e.cancelled || e.capped then (e, .returned)
  else
    match e.targets[e.cursor]? with
    | some node => ({ e with cursor := e.cursor + 1 }, read cache e.projectId node)
    | none => ({ e with cursor := e.cursor + 1 }, .returned)

/-- The first `n` workers start one after another. -/
def launch (cache : List (Text × Text)) : Nat → Effect → Effect
  | 0, e => e
  | n + 1, e =>
    let pulled := pull cache e
    launch cache n { pulled.1 with workers := pulled.1.workers ++ [pulled.2] }

inductive Reply
  | ok (content : Text)
  | notFound
  | apiError (message : Text)
  | otherError

/-- `read`, behind its await: what it returns, and the error it leaves. -/
def Reply.content : Reply → Option Text
  | .ok content => some content
  | .notFound | .apiError _ | .otherError => none

def Reply.error (error : Option Text) : Reply → Option Text
  | .ok _ | .notFound => error
  | .apiError message => some (error.getD message)
  | .otherError => some (error.getD (units "Some files could not be read."))

/-- What is passed over for its content. -/
def isSkipped (content : Text) : Bool :=
  MAX_SEARCHABLE_BYTES < content.length || looksBinary content

section Search

variable (C : Casing)

/-- A worker counts a file. -/
def count (e : Effect) (node : FlatNode) (content : Option Text) : Effect :=
  let e := { e with scanned := e.scanned + 1, handed := e.handed ++ [(node, content)] }
  match content with
  | none => e
  | some content =>
    if isSkipped content then { e with skipped := e.skipped + 1 }
    else
      let hits := e.hits ++
        (matchContent C content e.trimmed MAX_MATCHES_PER_FILE).map (⟨node, ·⟩)
      { e with hits, capped := e.capped || MAX_CONTENT_MATCHES ≤ hits.length }

/-! ## The steps -/

inductive Event
  | effect (projectId debounced : Text) (enabled : Bool) (nodes : List FlatNode)
  | settle (i w : Nat) (reply : Reply)
  | resume (i w now : Nat)
  | finish (i now : Nat)
  | unmount

/-- The run of the effect an event is a step of. -/
def Event.about : Event → Option Nat
  | .settle i .. | .resume i .. | .finish i _ => some i
  | .effect .. | .unmount => none

/-- The responses among them. -/
def Event.isResponse : Event → Bool
  | .settle .. => true
  | .effect .. | .resume .. | .finish .. | .unmount => false

/-- The cleanup of the last run. -/
def cleanup (s : State) : List Effect :=
  match s.current with
  | some i => s.effects.modify i fun e => { e with cancelled := true }
  | none => s.effects

/-- A run of the effect, to its first await. -/
def begin (cache : List (Text × Text)) (projectId trimmed : Text) (nodes : List FlatNode) :
    Effect :=
  let candidates := nodes.filter fun node => !node.isDir && isContentSearchable C node.path
  let targets := candidates.take MAX_FILES_SCANNED
  launch cache CONCURRENCY
    { projectId, trimmed, candidates, cancelled := false, scanned := 0
      skipped := candidates.length - targets.length, hits := [], capped := false, error := none
      lastFlush := 0, cursor := 0, workers := [], finished := false, handed := [] }

def runEffect (s : State) (projectId debounced : Text) (enabled : Bool) (nodes : List FlatNode) :
    State :=
  let trimmed := trim debounced
  if enabled && MIN_CONTENT_QUERY ≤ trimmed.length then
    let e := begin C s.cache projectId trimmed nodes
    { s with
      result := e.result .searching
      effects := cleanup s ++ [e]
      current := some s.effects.length }
  else { s with result := .idle, effects := cleanup s, current := none }

/-- The response to a request. -/
def settle (s : State) (i w : Nat) (reply : Reply) (e : Effect) : Option State :=
  match e.workers[w]? with
  | some (.reading _ node) =>
    some { s with
      cache := (reply.content.map fun content => (cacheKey node, content)).toList ++ s.cache
      effects := s.effects.set i
        { e with
          error := reply.error e.error
          workers := e.workers.set w (.resuming node reply.content) } }
  | _ => none

/-- A worker behind its await. -/
def resume (s : State) (i w now : Nat) (e : Effect) : Option State :=
  match e.workers[w]? with
  | some (.resuming node content) =>
    if e.cancelled then
      some { s with effects := s.effects.set i { e with workers := e.workers.set w .returned } }
    else
      let published := publish now .searching false (count C e node content) s.result
      let pulled := pull s.cache published.1
      some { s with
        result := published.2
        effects := s.effects.set i
          { pulled.1 with workers := pulled.1.workers.set w pulled.2 } }
  | _ => none

/-- `Promise.all` of the workers is done. -/
def finish (s : State) (i now : Nat) (e : Effect) : Option State :=
  if !e.finished && e.workers.all (· = .returned) then
    if e.cancelled then some { s with effects := s.effects.set i { e with finished := true } }
    else
      let published := publish now .done true { e with finished := true } s.result
      some { s with result := published.2, effects := s.effects.set i published.1 }
  else none

def step (s : State) : Event → Option State
  | .effect projectId debounced enabled nodes =>
    if s.mounted then some (runEffect C s projectId debounced enabled nodes) else none
  | .settle i w reply => s.effects[i]?.bind (settle s i w reply)
  | .resume i w now => s.effects[i]?.bind (resume C s i w now)
  | .finish i now => s.effects[i]?.bind (finish s i now)
  | .unmount =>
    if s.mounted then some { s with effects := cleanup s, current := none, mounted := false }
    else none

end Search

end CollabIDE.Search.ProjectSearch
