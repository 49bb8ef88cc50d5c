import CollabIDE.Execution.Delivery
import CollabIDE.Runner.Worker
/-!
# Starting a run

`startRun` from the request to the job id it is answered with, together with
what one run meets on its way: the registry's entry, the queue, the runner's
handler, the run's channel and the streams of the browsers.  The run subscribes
before it is enqueued; the other runs only matter for the number of entries.
-/

namespace CollabIDE.Execution.Service

open CollabIDE.Http.Errors CollabIDE.Lib.Json CollabIDE.Lib.Machine CollabIDE.Shared.Languages
open CollabIDE.Runner.Sandbox CollabIDE.Execution.Wire CollabIDE.Execution.Registry
open CollabIDE.Execution.Delivery CollabIDE.Runner

/-! ## What is checked -/

def inputBytes (files : List RunFile) : Nat :=
  (files.map fun file => file.content.utf8ByteSize).sum

/-- Bounds the job payload. -/
def assertWithinCaps (files : List RunFile) : Except AppError Unit :=
  if maxRunFiles < files.length then
    .error ⟨413, "RUN_TOO_LARGE",
      s!"This project has {files.length} files; a run allows at most {maxRunFiles}."⟩
  else if maxRunInputBytes < inputBytes files then
    .error ⟨413, "RUN_TOO_LARGE",
      s!"This project is {inputBytes files} bytes; a run allows at most {maxRunInputBytes}."⟩
  else .ok ()

def resolveLanguage (toLowerCase : String → String) (entrypoint : String) :
    Except AppError String :=
  match languageForPath toLowerCase entrypoint with
  | some languageId => .ok languageId
  | none => .error ⟨400, "LANGUAGE_UNSUPPORTED", "There is no runtime for this file type."⟩

/-- The files of the project, once they are read. -/
def checkFiles (files : List RunFile) (entrypoint : String) : Except AppError Unit :=
  match files.find? fun file => file.path = entrypoint with
  | some _ => assertWithinCaps files
  | none => .error ⟨404, "FILE_NOT_FOUND", "File not found"⟩

/-- The check at the top of `open`. -/
def assertRoom (reg : RunRegistry) : Except AppError Unit :=
  if maxActiveRuns ≤ reg.entries.length then
    .error ⟨429, "TOO_MANY_RUNS",
      s!"Too many runs are in progress ({maxActiveRuns}). Wait for one to finish."⟩
  else .ok ()

/-! ## The job in the queue -/

def fileValue (file : RunFile) : Value :=
  .obj [("path", .str file.path), ("content", .str file.content)]

/-- The job as the queue stores it. -/
def jobValue (job : RunJob) : Value :=
  .obj [("jobId", .str job.jobId), ("projectId", .str job.projectId),
    ("languageId", .str job.languageId), ("entrypoint", .str job.entrypoint),
    ("files", .arr (job.files.map fileValue))]

def stringProperty (name : String) (v : Value) : Option String := (property name v).bind string?

def fileOf (v : Value) : Option RunFile := do
  let path ← stringProperty "path" v
  let content ← stringProperty "content" v
  some ⟨path, content⟩

def jobOf (v : Value) : Option RunJob := do
  let jobId ← stringProperty "jobId" v
  let projectId ← stringProperty "projectId" v
  let languageId ← stringProperty "languageId" v
  let entrypoint ← stringProperty "entrypoint" v
  let .arr items ← property "files" v | none
  let files ← items.mapM fileOf
  some ⟨jobId, projectId, languageId, entrypoint, files⟩

/-- `job.data` of what `add` has stored. -/
def jobData (text : List Char) : Option RunJob := (parse text).bind jobOf

/-- What the handler passes on to `runWithLimits`. -/
def runSpec (job : RunJob) : RunSpec := ⟨job.jobId, job.languageId, job.entrypoint, job.files⟩

theorem fileOf_fileValue (file : RunFile) : fileOf (fileValue file) = some file := rfl

theorem mapM_fileOf (files : List RunFile) :
    (files.map fileValue).mapM fileOf = some files := by
  induction files with
  | nil => rfl
  | cons file files ih =>
      rw [List.map_cons, List.mapM_cons, fileOf_fileValue, ih]
      rfl

theorem jobOf_jobValue (job : RunJob) : jobOf (jobValue job) = some job := by
  change (do
    let files ← (job.files.map fileValue).mapM fileOf
    some (RunJob.mk job.jobId job.projectId job.languageId job.entrypoint files)) = some job
  rw [mapM_fileOf]
  rfl

/-- The runner reads the job the server has added. -/
theorem jobData_stringify (job : RunJob) : jobData (stringify (jobValue job)) = some job := by
  rw [jobData, parse_stringify, Option.bind_some, jobOf_jobValue]

/-! ## The way of one run -/

/-- The await `startRun` is suspended at, or how it has ended. -/
inductive Phase
  | uncalled
  | flushing (projectId userId entrypoint languageId : String)
  | listing (projectId userId entrypoint languageId : String)
  | opening (userId : String) (job : RunJob)
  /-- `open` waits for the SUBSCRIBE, with the timer of its entry armed or fired. -/
  | subscribing (userId : String) (job : RunJob) (timerArmed : Bool)
  | adding
  /-- The job id, or an `AppError`. -/
  | answered (result : Except AppError String)
  /-- Something the call waited for was rejected. -/
  | thrown

structure State where
  phase : Phase
  /-- The job `add` was called with and Redis has not stored yet. -/
  pending : Option RunJob
  queue : Option (List Char)
  handler : Option Worker.Handler
  /-- The SUBSCRIBE is acknowledged, and no QUIT answered. -/
  connected : Bool
  /-- Published while the connection was there, and not received. -/
  transit : List RunFrame
  /-- Every frame received so far. -/
  received : List RunFrame
  streams : Streams.State

def State.init : State := ⟨.uncalled, none, none, none, false, [], [], ⟨.empty, [], []⟩⟩

inductive Event
  | requested (projectId userId entrypoint : String)
  | flushed
  | listed (files : List RunFile)
  /-- `open` is called, with the registry as the other runs have left it. -/
  | opened (reg : RunRegistry)
  | subscribed (reg : RunRegistry)
  /-- The flush, the query or the SUBSCRIBE fails. -/
  | fails
  /-- Redis stores the job. -/
  | enqueued
  | added
  | addFails
  | taken
  | ran (e : Worker.Event)
  | delivered
  /-- Redis answers the QUIT. -/
  | quit
  | streamed (projectId : String) (client : Client)
  | disconnected (client : Client)
  | expired

/-- The frames of the run that its runner has published. -/
def published (s : State) : List RunFrame := (s.handler.map Worker.Handler.published).getD []

/-- `quit` has been called on the run's subscriber. -/
def quitting (jobId : String) (s : State) : Bool :=
  ((s.streams.reg.object jobId).map fun entry => !entry.subscriberOpen).getD false

def onStreams (jobId : String) (s : State) (e : Streams.Event) : Option State :=
  (Streams.step jobId s.streams e).map fun streams => { s with streams }

/-- The rest of `open`, once the SUBSCRIBE is acknowledged. -/
def insertEntry (jobId : String) (reg : RunRegistry) (projectId userId : String)
    (timerArmed : Bool) : RunRegistry :=
  (reg.store jobId { newEntry jobId projectId userId with timerArmed }).set jobId

/-- The handler goes on; what it publishes is sent on the connection that is there. -/
def runs (s : State) (handler handler' : Worker.Handler) : State :=
  { s with
    handler := some handler'
    transit := if s.connected then
      s.transit ++ handler'.published.drop handler.published.length else s.transit }

variable (toLowerCase : String → String) (jobId : String)

/-- `randomUUID` gives the id of the run.  A job is taken once, and no connection is lost. -/
def step (s : State) : Event → Option State
  | .requested projectId userId entrypoint =>
    match s.phase with
    | .uncalled => match resolveLanguage toLowerCase entrypoint with
      | .ok languageId => some { s with phase := .flushing projectId userId entrypoint languageId }
      | .error e => some { s with phase := .answered (.error e) }
    | _ => none
  | .flushed =>
    match s.phase with
    | .flushing projectId userId entrypoint languageId =>
      some { s with phase := .listing projectId userId entrypoint languageId }
    | _ => none
  | .listed files =>
    match s.phase with
    | .listing projectId userId entrypoint languageId => match checkFiles files entrypoint with
      | .ok _ =>
        some { s with phase := .opening userId ⟨jobId, projectId, languageId, entrypoint, files⟩ }
      | .error e => some { s with phase := .answered (.error e) }
    | _ => none
  | .opened reg =>
    match s.phase with
    | .opening userId job => match assertRoom reg with
      | .ok _ => some { s with phase := .subscribing userId job true }
      | .error e => some { s with phase := .answered (.error e) }
    | _ => none
  | .subscribed reg =>
    match s.phase with
    | .subscribing userId job timerArmed =>
      some { s with
        phase := .adding
        pending := some job
        connected := true
        streams := ⟨insertEntry jobId reg job.projectId userId timerArmed, [], []⟩ }
    | _ => none
  | .fails =>
    match s.phase with
    | .flushing .. | .listing .. | .subscribing .. => some { s with phase := .thrown }
    | _ => none
  | .enqueued =>
    s.pending.map fun job => { s with pending := none, queue := some (stringify (jobValue job)) }
  | .added =>
    match s.phase with
    | .adding =>
      if s.pending = none then some { s with phase := .answered (.ok jobId) } else none
    | _ => none
  | .addFails =>
    match s.phase with
    | .adding =>
      some { s with
        phase := .thrown
        streams := { s.streams with reg := close s.streams.reg jobId } }
    | _ => none
  | .taken => do
    let text ← s.queue
    let job ← jobData text
    some { s with queue := none, handler := some (Worker.start (runSpec job)) }
  | .ran e => do
    let handler ← s.handler
    let handler' ← Worker.step handler e
    some (runs s handler handler')
  | .delivered =>
    match s.transit with
    | frame :: rest =>
      (onStreams jobId s (.received (.encoded frame))).map fun t =>
        { t with transit := rest, received := s.received ++ [frame] }
    | [] => none
  | .quit => if quitting jobId s then some { s with connected := false } else none
  | .streamed projectId client => onStreams jobId s (.streamed projectId client)
  | .disconnected client => onStreams jobId s (.disconnected client)
  | .expired =>
    match s.phase with
    | .subscribing userId job timerArmed =>
      if timerArmed then some { s with phase := .subscribing userId job false } else none
    | _ => onStreams jobId s .expired

end CollabIDE.Execution.Service
