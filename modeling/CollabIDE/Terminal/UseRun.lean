import CollabIDE.Lib.Machine
import CollabIDE.Shared.Languages
/-!
# A run in the browser

`useRun`: a click posts the run, its answer opens an `EventSource`, and the
frames go to the terminal until the exit frame or an error closes the stream.
The page may be left or move on to another project at any time.
-/

namespace CollabIDE.Terminal.UseRun

open CollabIDE.Lib.Machine CollabIDE.Shared.Languages

inductive RunState
  | idle
  | starting
  | running
  | finished
  deriving DecidableEq

def RunState.isBusy : RunState → Bool
  | .starting | .running => true
  | .idle | .finished => false

structure RunSummary where
  status : RunStatus
  exitCode : Option Int
  durationMs : Int
  truncated : Bool
  deriving DecidableEq

/-- What the request for a run fails with. -/
inductive Failure
  | api (code message : String)
  | other
  deriving DecidableEq

def messageFor : Failure → String
  | .other => "Could not start the run."
  | .api code message =>
    if code = "LANGUAGE_UNSUPPORTED" then "There's no runtime for this file type."
    else if code = "RUN_TOO_LARGE" then message
    else if code = "TOO_MANY_RUNS" then "Too many runs in progress. Try again in a moment."
    else if code = "FILE_NOT_FOUND" then "That file no longer exists."
    else "Could not start the run."

/-- `toFixed` is `(ms / 1000).toFixed(1)`. -/
def summaryLine (toFixed : Int → String) (summary : RunSummary) : String :=
  match summary.status with
  | .timeout => "— TIMEOUT after " ++ toFixed summary.durationMs ++ "s"
  | .error => "— the run could not be started"
  | .ok =>
    "— exited " ++ (summary.exitCode.map toString).getD "?" ++ " in " ++
      toString summary.durationMs ++ "ms" ++
      if summary.truncated then " (output truncated at 1 MB)" else ""

/-- A call on the terminal. -/
inductive Output
  | write (data : String) (isErr : Bool)
  | line (text : String)
  deriving DecidableEq

structure EventSource where
  projectId : String
  jobId : String
  closed : Bool
  deriving DecidableEq

/-- A call of `start` that has posted its request. -/
structure Call where
  projectId : String
  entrypoint : String
  answered : Bool
  deriving DecidableEq

/-- `rendered` is the state `start` has closed over at the last commit.  `output` is what the
terminal was told since it was cleared last, `heard` the frames of that time. -/
structure State where
  projectId : String
  mounted : Bool
  state : RunState
  rendered : RunState
  summary : Option RunSummary
  sources : List EventSource
  sourceRef : Option Nat
  calls : List Call
  output : List Output
  heard : List RunFrame
  deriving DecidableEq

def init (projectId : String) : State :=
  ⟨projectId, true, .idle, .idle, none, [], none, [], [], []⟩

def close (source : EventSource) : EventSource := { source with closed := true }

def closeStream (s : State) : State :=
  { s with
    sources := (s.sourceRef.map fun j => s.sources.modify j close).getD s.sources
    sourceRef := none }

/-- `start`, to its request; React commits before the next click. -/
def start (entrypoint : String) (s : State) : State :=
  if s.rendered.isBusy then s
  else
    let s := closeStream s
    { s with
      summary := none
      state := .starting
      rendered := .starting
      calls := s.calls ++ [⟨s.projectId, entrypoint, false⟩]
      output := []
      heard := [] }

/-- `start`, from the answer to its request. -/
def answer (i : Nat) (reply : Except Failure String) (s : State) : Option State :=
  s.calls[i]?.bind fun call =>
    if call.answered then none
    else
      let s := { s with calls := s.calls.set i { call with answered := true } }
      match reply with
      | .ok jobId =>
        some { s with
          state := .running
          sources := s.sources ++ [⟨call.projectId, jobId, false⟩]
          sourceRef := some s.sources.length }
      | .error failure =>
        some { s with
          state := .finished
          output := s.output ++ [.line (messageFor failure)] }

section Messages

variable (toFixed : Int → String)

def finish (result : RunSummary) (s : State) : State :=
  closeStream { s with
    state := .finished
    summary := some result
    output := s.output ++ [.line (summaryLine toFixed result)] }

def onmessage (frame : RunFrame) (s : State) : State :=
  let s := { s with heard := s.heard ++ [frame] }
  match frame with
  | .exit status exitCode durationMs truncated _ =>
    finish toFixed ⟨status, exitCode, durationMs, truncated⟩ s
  | .stdout data => { s with output := s.output ++ [.write data false] }
  | .stderr data => { s with output := s.output ++ [.write data true] }

def interrupted : String := "— the output stream was interrupted"

def onerror (s : State) : State :=
  if s.sourceRef.isSome then
    closeStream { s with
      state := .finished
      output := s.output ++ [.line interrupted] }
  else s

inductive Event
  | click (entrypoint : String)
  | answered (i : Nat) (reply : Except Failure String)
  | message (j : Nat) (frame : RunFrame)
  /-- The browser gives up a stream if the error is `fatal`, and else connects again. -/
  | error (j : Nat) (fatal : Bool)
  | commit
  | navigate (projectId : String)
  | unmount

/-- An event source that is closed fires no events. -/
def isOpen (s : State) (j : Nat) : Bool :=
  (s.sources[j]?.map fun source => !source.closed).getD false

def step (s : State) : Event → Option State
  | .click entrypoint => if s.mounted then some (start entrypoint s) else none
  | .answered i reply => answer i reply s
  | .message j frame => if isOpen s j then some (onmessage toFixed frame s) else none
  | .error j fatal =>
    if isOpen s j then
      some (onerror { s with sources := if fatal then s.sources.modify j close else s.sources })
    else none
  | .commit => if s.mounted then some { s with rendered := s.state } else none
  | .navigate projectId =>
    if s.mounted then
      let s := if projectId = s.projectId then s else closeStream s
      some { s with projectId, rendered := s.state }
    else none
  | .unmount => if s.mounted then some { closeStream s with mounted := false } else none

end Messages

end CollabIDE.Terminal.UseRun
