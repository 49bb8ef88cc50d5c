import CollabIDE.Lib.Machine
import CollabIDE.Shared.Languages
/-!
# A run under its limits

`runWithLimits` over `runInContainer`, as the sequence of awaits they make.
The timer is armed before the first of them, the abort listener is registered
after the last step before `docker start`, and both the timer and the output
cap abort the same controller.  `docker start` and `docker kill` are separate
processes: between spawning one and its effect on the container anything else
may happen.
-/

namespace CollabIDE.Runner.Sandbox

open CollabIDE.Lib.Machine CollabIDE.Shared.Languages

inductive OutputStream
  | stdout
  | stderr
  deriving DecidableEq

structure RunSpec where
  runId : String
  languageId : String
  entrypoint : String
  files : List RunFile
  deriving DecidableEq

/-- What the driver reports about a finished program. -/
structure RunResult where
  exitCode : Option Int
  durationMs : Int
  killed : Bool
  deriving DecidableEq

structure LimitedRunResult where
  status : RunStatus
  exitCode : Option Int
  durationMs : Int
  truncated : Bool
  message : Option String
  deriving DecidableEq

/-- Why we asked the container to stop. -/
inductive AbortReason
  | timeout
  | output
  deriving DecidableEq

/-- The await `runInContainer` is suspended at. -/
inductive Stage
  | staging
  | creating
  | copying
  | streaming
  | removing
  | deleting
  | finished
  deriving DecidableEq

inductive Container
  | absent
  | created
  | running
  | exited
  | removed
  deriving DecidableEq

/-- The one `docker kill` a run can issue. -/
inductive Kill
  | notIssued
  | pending
  /-- It reached a running container. -/
  | landed
  /-- The container was not running when it arrived. -/
  | missed
  deriving DecidableEq

structure State where
  stage : Stage
  container : Container
  /-- `onAbort` is registered on the signal. -/
  listening : Bool
  reason : Option AbortReason
  timerArmed : Bool
  sentBytes : Nat
  forwarded : List (OutputStream × String)
  kill : Kill
  /-- The driver's own `killed` flag. -/
  killed : Bool
  result : Option (Except String RunResult)
  deriving DecidableEq

inductive Event
  | staged
  | created
  | copied
  /-- The daemon starts the container. -/
  | starts
  | output (stream : OutputStream) (chunk : String)
  | timerFires
  | killArrives
  | exits
  /-- `docker start -a` closes with this code. -/
  | closed (code : Option Int) (durationMs : Int)
  /-- The pending docker or file-system call fails. -/
  | fails (message : String)
  | cleaned
  deriving DecidableEq

/-- The checks before anything is created. -/
def checkSpec (spec : RunSpec) : Except String Unit :=
  if languageById spec.languageId = none then
    .error s!"unknown language: {spec.languageId}"
  else if spec.files.any fun file => file.path = spec.entrypoint then
    .ok ()
  else .error s!"entrypoint is not among the files: {spec.entrypoint}"

/-- The state once `runWithLimits` has armed its timer and called the driver. -/
def launch (spec : RunSpec) : State where
  stage := match checkSpec spec with
    | .ok _ => .staging
    | .error _ => .finished
  container := .absent
  listening := false
  reason := none
  timerArmed := match checkSpec spec with
    | .ok _ => true
    | .error _ => false
  sentBytes := 0
  forwarded := []
  kill := .notIssued
  killed := false
  result := match checkSpec spec with
    | .ok _ => none
    | .error message => some (.error message)

/-- The `onAbort` listener of the driver. -/
def onAbort (s : State) : State := { s with killed := true, kill := .pending }

/-- First writer wins.  `controller.abort()` calls a listener only if it is
registered at that moment. -/
def abortWith (s : State) (why : AbortReason) : State :=
  if s.reason ≠ none then s
  else
    let s := { s with reason := some why }
    if s.listening then onAbort s else s

/-- `Buffer.from(chunk).subarray(0, remaining).toString()`: the characters that
fit, and U+FFFD for one that is cut. -/
def cutAtBytes : List Char → Nat → List Char
  | [], _ => []
  | c :: cs, remaining =>
    if remaining = 0 then []
    else if c.utf8Size ≤ remaining then c :: cutAtBytes cs (remaining - c.utf8Size)
    else ['\uFFFD']

/-- The `onOutput` of the limiter. -/
def onOutput (s : State) (stream : OutputStream) (chunk : String) : State :=
  if s.reason = some .output then s
  else
    let size := chunk.utf8ByteSize
    if s.sentBytes + size ≤ maxOutputBytes then
      { s with sentBytes := s.sentBytes + size, forwarded := s.forwarded ++ [(stream, chunk)] }
    else
      let remaining := maxOutputBytes - s.sentBytes
      let s := if 0 < remaining then
        { s with
          sentBytes := s.sentBytes + remaining
          forwarded := s.forwarded ++
            [(stream, String.ofList (cutAtBytes chunk.toList remaining))] }
        else s
      abortWith s .output

/-- The call the driver is waiting for fails: what `catch` and the two
`finally` blocks do next. -/
def fail (s : State) (message : String) : Option State :=
  match s.stage with
  | .staging | .creating => some { s with stage := .deleting, result := some (.error message) }
  | .copying | .streaming =>
    some { s with stage := .removing, listening := false, result := some (.error message) }
  -- `removeContainer` swallows its failure
  | .removing => some { s with stage := .deleting }
  | .deleting => some { s with
      stage := .finished, timerArmed := false, result := some (.error message) }
  | .finished => none

def step (s : State) : Event → Option State
  | .staged => if s.stage = .staging then some { s with stage := .creating } else none
  | .created =>
    if s.stage = .creating then some { s with stage := .copying, container := .created } else none
  -- the listener goes up and `docker start` is spawned in one turn
  | .copied =>
    if s.stage = .copying then some { s with stage := .streaming, listening := true } else none
  | .starts =>
    if s.stage = .streaming ∧ s.container = .created then
      some { s with container := .running }
    else none
  | .output stream chunk =>
    if s.stage = .streaming ∧ s.container ≠ .created then some (onOutput s stream chunk) else none
  | .timerFires =>
    if s.timerArmed then some (abortWith { s with timerArmed := false } .timeout) else none
  | .killArrives =>
    if s.kill = .pending then
      if s.container = .running then some { s with kill := .landed, container := .exited }
      else some { s with kill := .missed }
    else none
  | .exits => if s.container = .running then some { s with container := .exited } else none
  | .closed code durationMs =>
    if s.stage = .streaming ∧ s.container ≠ .running then
      some { s with
        stage := .removing
        listening := false
        result := some (.ok ⟨if s.killed then none else code, durationMs, s.killed⟩) }
    else none
  | .fails message => if s.container = .running then none else fail s message
  | .cleaned =>
    match s.stage with
    | .removing => some { s with stage := .deleting, container := .removed }
    | .deleting => some { s with stage := .finished, timerArmed := false }
    | _ => none

/-- What `runWithLimits` returns once the driver has settled; `elapsedMs` is its
own clock, used only when the sandbox failed. -/
def limitedResult (s : State) (elapsedMs : Int) : Option LimitedRunResult :=
  match s.result with
  | none => none
  | some (.ok result) =>
    if s.reason = some .timeout then
      some ⟨.timeout, none, result.durationMs, false, none⟩
    else some ⟨.ok, result.exitCode, result.durationMs, s.reason = some .output, none⟩
  | some (.error message) =>
    some ⟨.error, none, elapsedMs, s.reason = some .output, some message⟩

/-! ## What a step does -/

/-- The steps of a run, one constructor for each way an event can go. -/
inductive Took (s : State) : Event → State → Prop
  | staged (hstage : s.stage = .staging) : Took s .staged { s with stage := .creating }
  | created (hstage : s.stage = .creating) :
      Took s .created { s with stage := .copying, container := .created }
  | copied (hstage : s.stage = .copying) :
      Took s .copied { s with stage := .streaming, listening := true }
  | starts (hstage : s.stage = .streaming) (hcreated : s.container = .created) :
      Took s .starts { s with container := .running }
  | output (hstage : s.stage = .streaming) (hcontainer : s.container ≠ .created)
      (stream : OutputStream) (chunk : String) :
      Took s (.output stream chunk) (onOutput s stream chunk)
  | timerFires (harmed : s.timerArmed = true) :
      Took s .timerFires (abortWith { s with timerArmed := false } .timeout)
  | killLands (hpending : s.kill = .pending) (hrunning : s.container = .running) :
      Took s .killArrives { s with kill := .landed, container := .exited }
  | killMisses (hpending : s.kill = .pending) (hrunning : s.container ≠ .running) :
      Took s .killArrives { s with kill := .missed }
  | exits (hrunning : s.container = .running) : Took s .exits { s with container := .exited }
  | closed (hstage : s.stage = .streaming) (hrunning : s.container ≠ .running)
      (code : Option Int) (durationMs : Int) :
      Took s (.closed code durationMs) { s with
        stage := .removing
        listening := false
        result := some (.ok ⟨if s.killed then none else code, durationMs, s.killed⟩) }
  | failsEarly (hstage : s.stage = .staging ∨ s.stage = .creating)
      (hrunning : s.container ≠ .running) (message : String) :
      Took s (.fails message) { s with stage := .deleting, result := some (.error message) }
  | failsLate (hstage : s.stage = .copying ∨ s.stage = .streaming)
      (hrunning : s.container ≠ .running) (message : String) :
      Took s (.fails message) { s with
        stage := .removing, listening := false, result := some (.error message) }
  | failsRemoving (hstage : s.stage = .removing) (hrunning : s.container ≠ .running)
      (message : String) : Took s (.fails message) { s with stage := .deleting }
  | failsDeleting (hstage : s.stage = .deleting) (hrunning : s.container ≠ .running)
      (message : String) :
      Took s (.fails message) { s with
        stage := .finished, timerArmed := false, result := some (.error message) }
  | removed (hstage : s.stage = .removing) :
      Took s .cleaned { s with stage := .deleting, container := .removed }
  | deleted (hstage : s.stage = .deleting) :
      Took s .cleaned { s with stage := .finished, timerArmed := false }

theorem took_fails {s t : State} {message : String} (hrunning : s.container ≠ .running)
    (h : fail s message = some t) : Took s (.fails message) t := by
  cases hstage : s.stage <;> simp only [fail, hstage, Option.some.injEq, reduceCtorEq] at h
  case staging => exact h ▸ .failsEarly (.inl hstage) hrunning message
  case creating => exact h ▸ .failsEarly (.inr hstage) hrunning message
  case copying => exact h ▸ .failsLate (.inl hstage) hrunning message
  case streaming => exact h ▸ .failsLate (.inr hstage) hrunning message
  case removing => exact h ▸ .failsRemoving hstage hrunning message
  case deleting => exact h ▸ .failsDeleting hstage hrunning message

theorem took {s t : State} {e : Event} (h : step s e = some t) : Took s e t := by
  cases e with
  | killArrives =>
      simp only [step, Option.ite_none_right_eq_some] at h
      obtain ⟨hpending, h⟩ := h
      by_cases hrunning : s.container = .running
      · rw [if_pos hrunning, Option.some.injEq] at h
        exact h ▸ .killLands hpending hrunning
      · rw [if_neg hrunning, Option.some.injEq] at h
        exact h ▸ .killMisses hpending hrunning
  | fails message =>
      simp only [step, Option.ite_none_left_eq_some] at h
      exact took_fails h.1 h.2
  | cleaned =>
      cases hstage : s.stage <;> simp only [step, hstage, Option.some.injEq, reduceCtorEq] at h
      case removing => exact h ▸ .removed hstage
      case deleting => exact h ▸ .deleted hstage
  | starts =>
      simp only [step, Option.ite_none_right_eq_some, Option.some.injEq] at h
      exact h.2 ▸ .starts h.1.1 h.1.2
  | output stream chunk =>
      simp only [step, Option.ite_none_right_eq_some, Option.some.injEq] at h
      exact h.2 ▸ .output h.1.1 h.1.2 stream chunk
  | closed code durationMs =>
      simp only [step, Option.ite_none_right_eq_some, Option.some.injEq] at h
      exact h.2 ▸ .closed h.1.1 h.1.2 code durationMs
  | staged =>
      simp only [step, Option.ite_none_right_eq_some, Option.some.injEq] at h
      exact h.2 ▸ .staged h.1
  | created =>
      simp only [step, Option.ite_none_right_eq_some, Option.some.injEq] at h
      exact h.2 ▸ .created h.1
  | copied =>
      simp only [step, Option.ite_none_right_eq_some, Option.some.injEq] at h
      exact h.2 ▸ .copied h.1
  | timerFires =>
      simp only [step, Option.ite_none_right_eq_some, Option.some.injEq] at h
      exact h.2 ▸ .timerFires h.1
  | exits =>
      simp only [step, Option.ite_none_right_eq_some, Option.some.injEq] at h
      exact h.2 ▸ .exits h.1

end CollabIDE.Runner.Sandbox
