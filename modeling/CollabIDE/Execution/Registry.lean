import CollabIDE.Execution.Wire
import CollabIDE.Http.Errors
import CollabIDE.Lib.Machine
import Mathlib.Logic.Function.Basic
/-!
# The run registry

One subscription per in-flight run, opened before the job is enqueued.  Frames
that arrive before a browser attaches are buffered and replayed; the buffer
stops growing once the payloads in it reach the output cap.  The subscription's
handler closes over the entry object, so an object outlives its removal from
the map.
-/

namespace CollabIDE.Execution.Registry

open CollabIDE.Lib.Machine CollabIDE.Shared.Languages CollabIDE.Execution.Wire
open CollabIDE.Http.Errors

/-- The response a sink writes to. -/
abbrev Client := Nat

structure RunEntry where
  jobId : String
  projectId : String
  userId : String
  /-- `quit` has not been called. -/
  subscriberOpen : Bool
  /-- Frames received before a client attached, replayed in order on attach. -/
  buffered : List RunFrame
  bufferedBytes : Nat
  sink : Option Client
  terminal : Bool
  timerArmed : Bool
  /-- Every call made to a sink of this run. -/
  handed : List (Client × RunFrame)
  deriving DecidableEq

/-- The keys of the `entries` map, and the entry object of each run. -/
structure RunRegistry where
  entries : List String
  object : String → Option RunEntry

def RunRegistry.empty : RunRegistry := ⟨[], fun _ => none⟩

def maxActiveRuns : Nat := 20

/-- A write to the entry object of a run. -/
def RunRegistry.store (reg : RunRegistry) (jobId : String) (entry : RunEntry) : RunRegistry :=
  { reg with object := Function.update reg.object jobId (some entry) }

/-- `entries.set`. -/
def RunRegistry.set (reg : RunRegistry) (jobId : String) : RunRegistry :=
  { reg with entries := reg.entries ++ [jobId] }

/-- `entries.delete`. -/
def RunRegistry.delete (reg : RunRegistry) (jobId : String) : RunRegistry :=
  { reg with entries := reg.entries.filter (· ≠ jobId) }

/-- The entry `open` builds. -/
def newEntry (jobId projectId userId : String) : RunEntry where
  jobId := jobId
  projectId := projectId
  userId := userId
  subscriberOpen := true
  buffered := []
  bufferedBytes := 0
  sink := none
  terminal := false
  timerArmed := true
  handed := []

/-- `open`, up to the acknowledged SUBSCRIBE. -/
def openRun (reg : RunRegistry) (jobId projectId userId : String) : Except AppError RunRegistry :=
  if maxActiveRuns ≤ reg.entries.length then
    .error ⟨429, "TOO_MANY_RUNS",
      s!"Too many runs are in progress ({maxActiveRuns}). Wait for one to finish."⟩
  else
    .ok ((reg.store jobId (newEntry jobId projectId userId)).set jobId)

/-- `entry.sink(frame)`. -/
def RunEntry.hand (entry : RunEntry) (client : Client) (frame : RunFrame) : RunEntry :=
  { entry with handed := entry.handed ++ [(client, frame)] }

/-- As far as the awaited `quit`. -/
def releaseSubscriber (entry : RunEntry) : RunEntry := { entry with subscriberOpen := false }

def remove (reg : RunRegistry) (jobId : String) : RunRegistry :=
  match reg.object jobId with
  | some entry =>
    if jobId ∈ reg.entries then
      (reg.delete jobId).store jobId { entry with timerArmed := false, sink := none }
    else reg
  | none => reg

/-- The first half of `receive`: the frame goes to the sink or into the buffer. -/
def sinkOrBuffer (entry : RunEntry) (frame : RunFrame) (payload : Payload) : RunEntry :=
  match entry.sink with
  | some client => entry.hand client frame
  | none =>
    if entry.bufferedBytes < maxOutputBytes then
      { entry with
        buffered := entry.buffered ++ [frame]
        bufferedBytes := entry.bufferedBytes + payload.length }
    else entry

/-- `receive`, the message handler of the run's subscriber. -/
def receive (reg : RunRegistry) (entry : RunEntry) (jobId : String) (payload : Payload) :
    RunRegistry :=
  match payload.parse with
  | none => reg
  | some frame =>
    let entry := sinkOrBuffer entry frame payload
    if frame.isExit then
      let entry := releaseSubscriber { entry with terminal := true }
      let reg := reg.store jobId entry
      if entry.sink.isSome then remove reg jobId else reg
    else reg.store jobId entry

/-- `attach`: replays the buffer to the new sink. -/
def attach (reg : RunRegistry) (jobId : String) (client : Client) : RunRegistry × Bool :=
  match reg.object jobId with
  | some entry =>
    if jobId ∈ reg.entries then
      let replay := entry.buffered
      let entry := { entry with sink := some client, buffered := [], bufferedBytes := 0 }
      let entry := replay.foldl (fun entry frame => entry.hand client frame) entry
      let reg := reg.store jobId entry
      (if entry.terminal then remove reg jobId else reg, true)
    else (reg, false)
  | none => (reg, false)

def detach (reg : RunRegistry) (jobId : String) : RunRegistry :=
  match reg.object jobId with
  | some entry =>
    if jobId ∈ reg.entries then reg.store jobId { entry with sink := none } else reg
  | none => reg

/-- `close`: the TTL, a failed enqueue and shutdown. -/
def close (reg : RunRegistry) (jobId : String) : RunRegistry :=
  if jobId ∈ reg.entries then
    let reg := remove reg jobId
    match reg.object jobId with
    | some entry => reg.store jobId (releaseSubscriber entry)
    | none => reg
  else reg

inductive Event
  | opened (jobId projectId userId : String)
  | message (jobId : String) (payload : Payload)
  | attached (jobId : String) (client : Client)
  | detached (jobId : String)
  | closed (jobId : String)

def Event.jobId : Event → String
  | .opened jobId .. | .message jobId _ | .attached jobId _ | .detached jobId | .closed jobId =>
    jobId

/-- A run's id is fresh.  A frame may still come while `quit` is awaited, but the
runner publishes none behind its exit frame. -/
def step (reg : RunRegistry) : Event → Option RunRegistry
  | .opened jobId projectId userId =>
    if reg.object jobId = none then (openRun reg jobId projectId userId).toOption else none
  | .message jobId payload =>
    match reg.object jobId with
    | some entry => if entry.terminal then none else some (receive reg entry jobId payload)
    | none => none
  | .attached jobId client => some (attach reg jobId client).1
  | .detached jobId => some (detach reg jobId)
  | .closed jobId => some (close reg jobId)

/-- The frames handed to one client's sink. -/
def RunEntry.handedTo (entry : RunEntry) (client : Client) : List RunFrame :=
  (entry.handed.filter fun call => call.1 = client).map Prod.snd

/-- The client got frames in publication order without duplicates, the last of
them its only exit frame, and the run is gone from the registry. -/
def Ended (reg : RunRegistry) (jobId : String) (client : Client) (published : List RunFrame) :
    Prop :=
  ∃ entry, reg.object jobId = some entry ∧
    (entry.handedTo client).Sublist published ∧
    (∃ init last, entry.handedTo client = init ++ [last] ∧ last.isExit = true ∧
      ∀ frame ∈ init, frame.isExit = false) ∧
    jobId ∉ reg.entries

/-! ## One run among the others -/

/-- The registry with only one run in it. -/
def only (jobId : String) (reg : RunRegistry) : RunRegistry where
  entries := reg.entries.filter (· = jobId)
  object k := if k = jobId then reg.object k else none

section Only

variable {jobId other : String} (reg : RunRegistry)

@[simp] theorem only_object : (only jobId reg).object jobId = reg.object jobId := if_pos rfl

@[simp] theorem mem_only_entries : jobId ∈ (only jobId reg).entries ↔ jobId ∈ reg.entries := by
  simp [only]

@[simp] theorem only_store (entry : RunEntry) :
    only jobId (reg.store jobId entry) = (only jobId reg).store jobId entry := by
  simp only [only, RunRegistry.store, RunRegistry.mk.injEq, true_and]
  funext k
  by_cases hk : k = jobId
  · subst hk
    simp
  · simp [hk]

@[simp] theorem only_set : only jobId (reg.set jobId) = (only jobId reg).set jobId := by
  simp [only, RunRegistry.set]

@[simp] theorem only_delete : only jobId (reg.delete jobId) = (only jobId reg).delete jobId := by
  simp only [only, RunRegistry.delete, List.filter_filter, Bool.and_comm]

theorem only_store_of_ne (hne : other ≠ jobId) (entry : RunEntry) :
    only jobId (reg.store other entry) = only jobId reg := by
  simp only [only, RunRegistry.store, RunRegistry.mk.injEq, true_and]
  funext k
  by_cases hk : k = jobId
  · subst hk
    simp [Function.update_of_ne hne.symm]
  · simp [hk]

theorem only_set_of_ne (hne : other ≠ jobId) : only jobId (reg.set other) = only jobId reg := by
  simp [only, RunRegistry.set, hne]

theorem only_delete_of_ne (hne : other ≠ jobId) :
    only jobId (reg.delete other) = only jobId reg := by
  simp only [only, RunRegistry.delete, List.filter_filter, RunRegistry.mk.injEq, and_true]
  refine List.filter_congr fun k _ => ?_
  by_cases hk : k = jobId
  · simp [hk, hne.symm]
  · simp [hk]

@[simp] theorem only_remove : only jobId (remove reg jobId) = remove (only jobId reg) jobId := by
  unfold remove
  rw [only_object]
  cases reg.object jobId with
  | none => rfl
  | some entry => simp only [mem_only_entries, apply_ite (only jobId), only_store, only_delete]

theorem only_remove_of_ne (hne : other ≠ jobId) :
    only jobId (remove reg other) = only jobId reg := by
  unfold remove
  cases reg.object other with
  | none => rfl
  | some entry =>
      simp only [apply_ite (only jobId), only_store_of_ne _ hne, only_delete_of_ne _ hne, ite_self]

@[simp] theorem only_receive (entry : RunEntry) (payload : Payload) :
    only jobId (receive reg entry jobId payload) =
      receive (only jobId reg) entry jobId payload := by
  unfold receive
  cases payload.parse with
  | none => rfl
  | some frame => simp only [apply_ite (only jobId), only_store, only_remove]

theorem only_receive_of_ne (hne : other ≠ jobId) (entry : RunEntry) (payload : Payload) :
    only jobId (receive reg entry other payload) = only jobId reg := by
  unfold receive
  cases payload.parse with
  | none => rfl
  | some frame =>
      simp only [apply_ite (only jobId), only_store_of_ne _ hne, only_remove_of_ne _ hne, ite_self]

theorem only_step_of_ne {reg reg' : RunRegistry} {e : Event} (hne : e.jobId ≠ jobId)
    (h : step reg e = some reg') : only jobId reg' = only jobId reg := by
  cases e with
  | opened other projectId userId =>
      change other ≠ jobId at hne
      simp only [step, openRun, Option.ite_none_right_eq_some] at h
      obtain ⟨-, h⟩ := h
      by_cases hfull : maxActiveRuns ≤ reg.entries.length
      · simp [hfull, Except.toOption] at h
      · simp only [if_neg hfull, Except.toOption, Option.some.injEq] at h
        rw [← h, only_set_of_ne _ hne, only_store_of_ne _ hne]
  | message other payload =>
      change other ≠ jobId at hne
      cases hobj : reg.object other with
      | none => simp [step, hobj] at h
      | some entry =>
          simp only [step, hobj, Option.ite_none_left_eq_some, Option.some.injEq] at h
          rw [← h.2, only_receive_of_ne _ hne]
  | attached other client =>
      change other ≠ jobId at hne
      simp only [step, Option.some.injEq] at h
      rw [← h, attach]
      cases reg.object other with
      | none => rfl
      | some entry =>
          simp only [apply_ite Prod.fst, apply_ite (only jobId), only_store_of_ne _ hne,
            only_remove_of_ne _ hne, ite_self]
  | detached other =>
      change other ≠ jobId at hne
      simp only [step, Option.some.injEq] at h
      rw [← h, detach]
      cases reg.object other with
      | none => rfl
      | some entry => simp only [apply_ite (only jobId), only_store_of_ne _ hne, ite_self]
  | closed other =>
      change other ≠ jobId at hne
      simp only [step, Option.some.injEq] at h
      rw [← h, close]
      by_cases hin : other ∈ reg.entries
      · rw [if_pos hin]
        cases hobj : (remove reg other).object other with
        | none => simp only [hobj, only_remove_of_ne _ hne]
        | some entry => simp only [hobj, only_store_of_ne _ hne, only_remove_of_ne _ hne]
      · rw [if_neg hin]

theorem only_step_own {reg reg' : RunRegistry} {e : Event} (heq : e.jobId = jobId)
    (h : step reg e = some reg') : step (only jobId reg) e = some (only jobId reg') := by
  cases e with
  | opened own projectId userId =>
      change own = jobId at heq
      subst heq
      simp only [step, openRun, Option.ite_none_right_eq_some] at h ⊢
      obtain ⟨hfresh, h⟩ := h
      refine ⟨by simpa using hfresh, ?_⟩
      by_cases hfull : maxActiveRuns ≤ reg.entries.length
      · simp [hfull, Except.toOption] at h
      · have hroom : ¬ maxActiveRuns ≤ (only own reg).entries.length := fun hle =>
          hfull (Nat.le_trans hle (List.length_filter_le _ _))
        simp only [if_neg hfull, Except.toOption, Option.some.injEq] at h
        simp [hroom, Except.toOption, ← h]
  | message own payload =>
      change own = jobId at heq
      subst heq
      cases hobj : reg.object own with
      | none => simp [step, hobj] at h
      | some entry =>
          simp only [step, hobj, Option.ite_none_left_eq_some, Option.some.injEq] at h
          simp [step, hobj, h.1, ← h.2]
  | attached own client =>
      change own = jobId at heq
      subst heq
      simp only [step, Option.some.injEq] at h
      simp only [step, Option.some.injEq, ← h, attach, only_object]
      cases reg.object own with
      | none => rfl
      | some entry =>
          simp only [mem_only_entries, apply_ite Prod.fst, apply_ite (only own), only_store,
            only_remove]
  | detached own =>
      change own = jobId at heq
      subst heq
      simp only [step, Option.some.injEq] at h
      simp only [step, Option.some.injEq, ← h, detach, only_object]
      cases reg.object own with
      | none => rfl
      | some entry => simp only [mem_only_entries, apply_ite (only own), only_store]
  | closed own =>
      change own = jobId at heq
      subst heq
      simp only [step, Option.some.injEq] at h
      simp only [step, Option.some.injEq, ← h, close, mem_only_entries]
      by_cases hin : own ∈ reg.entries
      · simp only [if_pos hin, ← only_remove, only_object]
        cases (remove reg own).object own with
        | none => rfl
        | some entry => simp only [only_store]
      · rw [if_neg hin, if_neg hin]

end Only

/-- A run of the registry, seen from one of the runs it manages. -/
theorem run_only {reg reg' : RunRegistry} {events : List Event} (jobId : String)
    (h : run step reg events = some reg') :
    run step (only jobId reg) (events.filter fun e => e.jobId = jobId) =
      some (only jobId reg') :=
  run_filter (fun _ _ _ hne hstep => only_step_of_ne (by simpa using hne) hstep)
    (fun _ _ _ heq hstep => only_step_own (by simpa using heq) hstep) h

/-! ## Before and after a client attaches -/

/-- The payload lengths of some frames, added up. -/
def payloadLength (frames : List RunFrame) : Nat :=
  (frames.map fun frame => (Payload.encoded frame).length).sum

/-- The publications of some frames on a run's channel. -/
def messages (jobId : String) (frames : List RunFrame) : List Event :=
  frames.map fun frame => .message jobId (.encoded frame)

/-- A run nobody has attached to that has received the output `seen`. -/
structure Waiting (entry : RunEntry) (seen : List RunFrame) : Prop where
  sink_eq : entry.sink = none
  terminal_eq : entry.terminal = false
  handed_eq : entry.handed = []
  buffered_sublist : entry.buffered.Sublist seen
  bytes_eq : entry.bufferedBytes = payloadLength seen ∨
    maxOutputBytes ≤ entry.bufferedBytes ∧ maxOutputBytes ≤ payloadLength seen

/-- A run whose client has been handed a part of `seen`. -/
structure Streaming (entry : RunEntry) (client : Client) (seen : List RunFrame) : Prop where
  sink_eq : entry.sink = some client
  terminal_eq : entry.terminal = false
  handed_eq : ∃ init : List RunFrame, entry.handed = init.map (client, ·) ∧ init.Sublist seen

theorem waiting_newEntry (jobId projectId userId : String) :
    Waiting (newEntry jobId projectId userId) [] :=
  ⟨rfl, rfl, rfl, List.Sublist.refl _, Or.inl rfl⟩

theorem messages_append (jobId : String) (frames frames' : List RunFrame) :
    messages jobId (frames ++ frames') = messages jobId frames ++ messages jobId frames' :=
  List.map_append

@[simp] theorem store_object (reg : RunRegistry) (jobId : String) (entry : RunEntry) :
    (reg.store jobId entry).object jobId = some entry :=
  Function.update_self _ _ _

@[simp] theorem store_store (reg : RunRegistry) (jobId : String) (entry entry' : RunEntry) :
    (reg.store jobId entry).store jobId entry' = reg.store jobId entry' := by
  simp [RunRegistry.store]

@[simp] theorem store_entries (reg : RunRegistry) (jobId : String) (entry : RunEntry) :
    (reg.store jobId entry).entries = reg.entries := rfl

theorem store_eq_self {reg : RunRegistry} {jobId : String} {entry : RunEntry}
    (hobj : reg.object jobId = some entry) : reg.store jobId entry = reg := by
  rw [RunRegistry.store, ← hobj, Function.update_eq_self]

theorem step_message {reg : RunRegistry} {jobId : String} {entry : RunEntry} (payload : Payload)
    (hobj : reg.object jobId = some entry) (hterm : entry.terminal = false) :
    step reg (.message jobId payload) = some (receive reg entry jobId payload) := by
  simp [step, hobj, hterm]

theorem receive_output {entry : RunEntry} {frame : RunFrame} (reg : RunRegistry) (jobId : String)
    (hframe : frame.isExit = false) :
    receive reg entry jobId (.encoded frame) =
      reg.store jobId (sinkOrBuffer entry frame (.encoded frame)) := by
  simp [receive, Payload.parse, hframe]

theorem Waiting.bytes_lt_iff {entry : RunEntry} {seen : List RunFrame} (hw : Waiting entry seen) :
    entry.bufferedBytes < maxOutputBytes ↔ payloadLength seen < maxOutputBytes := by
  rcases hw.bytes_eq with h | h <;> omega

theorem Waiting.sinkOrBuffer {entry : RunEntry} {seen : List RunFrame} (hw : Waiting entry seen)
    (frame : RunFrame) :
    Waiting (sinkOrBuffer entry frame (.encoded frame)) (seen ++ [frame]) := by
  have hlen : payloadLength (seen ++ [frame]) =
      payloadLength seen + (Payload.encoded frame).length := by
    simp [payloadLength]
  unfold Registry.sinkOrBuffer
  simp only [hw.sink_eq]
  by_cases hlt : entry.bufferedBytes < maxOutputBytes
  · have hbytes : entry.bufferedBytes = payloadLength seen := by
      rcases hw.bytes_eq with h | h
      · exact h
      · omega
    rw [if_pos hlt]
    exact ⟨rfl, hw.terminal_eq, hw.handed_eq,
      hw.buffered_sublist.append (List.Sublist.refl _), Or.inl (by rw [hlen, ← hbytes])⟩
  · have hfull : maxOutputBytes ≤ payloadLength seen :=
      Nat.le_of_not_lt fun h => hlt (hw.bytes_lt_iff.mpr h)
    rw [if_neg hlt]
    refine ⟨hw.sink_eq, hw.terminal_eq, hw.handed_eq,
      hw.buffered_sublist.trans (List.sublist_append_left _ _), Or.inr ⟨?_, ?_⟩⟩ <;> omega

theorem Streaming.sinkOrBuffer {entry : RunEntry} {client : Client} {seen : List RunFrame}
    (hs : Streaming entry client seen) (frame : RunFrame) :
    Streaming (sinkOrBuffer entry frame (.encoded frame)) client (seen ++ [frame]) := by
  obtain ⟨init, hhanded, hsub⟩ := hs.handed_eq
  unfold Registry.sinkOrBuffer
  simp only [hs.sink_eq]
  refine ⟨hs.sink_eq, hs.terminal_eq, init ++ [frame], ?_,
    hsub.append (List.Sublist.refl _)⟩
  simp [RunEntry.hand, hhanded]

/-- What every output frame preserves holds after any number of them. -/
theorem run_messages {P : RunEntry → List RunFrame → Prop}
    (hlive : ∀ entry seen, P entry seen → entry.terminal = false)
    (hframe : ∀ entry seen frame, P entry seen →
      P (sinkOrBuffer entry frame (.encoded frame)) (seen ++ [frame]))
    {reg : RunRegistry} {jobId : String} {entry : RunEntry} {seen frames : List RunFrame}
    (hobj : reg.object jobId = some entry) (hp : P entry seen)
    (hframes : ∀ frame ∈ frames, frame.isExit = false) :
    ∃ entry', run step reg (messages jobId frames) = some (reg.store jobId entry') ∧
      P entry' (seen ++ frames) := by
  induction frames generalizing reg entry seen with
  | nil => exact ⟨entry, by rw [store_eq_self hobj]; rfl, by simpa using hp⟩
  | cons frame frames ih =>
      obtain ⟨entry', hrun, hp'⟩ := ih (store_object reg jobId _) (hframe _ _ frame hp)
        fun f hf => hframes f (List.mem_cons_of_mem _ hf)
      refine ⟨entry', run_cons_eq_some.mpr ⟨_, step_message _ hobj (hlive _ _ hp), ?_⟩, ?_⟩
      · rw [receive_output reg jobId (hframes frame List.mem_cons_self)]
        rw [store_store] at hrun
        exact hrun
      · rwa [List.append_assoc] at hp'

theorem handed_foldl (entry : RunEntry) (client : Client) (replay : List RunFrame) :
    replay.foldl (fun entry frame => entry.hand client frame) entry =
      { entry with handed := entry.handed ++ replay.map (client, ·) } := by
  induction replay generalizing entry with
  | nil => simp
  | cons frame replay ih =>
      rw [List.foldl_cons, ih]
      simp [RunEntry.hand]

theorem remove_store {reg : RunRegistry} {jobId : String} (entry : RunEntry)
    (hin : jobId ∈ reg.entries) :
    remove (reg.store jobId entry) jobId =
      (reg.delete jobId).store jobId { entry with timerArmed := false, sink := none } := by
  have hin' : jobId ∈ (reg.store jobId entry).entries := hin
  unfold remove
  simp only [store_object]
  rw [if_pos hin']
  exact store_store (reg.delete jobId) jobId entry _

theorem notMem_delete (reg : RunRegistry) (jobId : String) (entry : RunEntry) :
    jobId ∉ ((reg.delete jobId).store jobId entry).entries := by
  simp [RunRegistry.delete]

theorem attach_live {reg : RunRegistry} {jobId : String} {entry : RunEntry} (client : Client)
    (hobj : reg.object jobId = some entry) (hin : jobId ∈ reg.entries)
    (hterm : entry.terminal = false) :
    (attach reg jobId client).1 = reg.store jobId
      { entry with
        sink := some client, buffered := [], bufferedBytes := 0
        handed := entry.handed ++ entry.buffered.map (client, ·) } := by
  simp [attach, hobj, hin, handed_foldl, hterm]

theorem attach_over {reg : RunRegistry} {jobId : String} {entry : RunEntry} (client : Client)
    (hobj : reg.object jobId = some entry) (hin : jobId ∈ reg.entries)
    (hterm : entry.terminal = true) :
    (attach reg jobId client).1 = (reg.delete jobId).store jobId
      { entry with
        sink := none, buffered := [], bufferedBytes := 0, timerArmed := false
        handed := entry.handed ++ entry.buffered.map (client, ·) } := by
  simp only [attach, hobj, if_pos hin, handed_foldl, hterm, if_true]
  exact remove_store _ hin

theorem attach_waiting {reg : RunRegistry} {jobId : String} {entry : RunEntry}
    {seen : List RunFrame} (client : Client) (hobj : reg.object jobId = some entry)
    (hin : jobId ∈ reg.entries) (hw : Waiting entry seen) :
    ∃ entry', step reg (.attached jobId client) = some (reg.store jobId entry') ∧
      Streaming entry' client seen := by
  refine ⟨_, congrArg some (attach_live client hobj hin hw.terminal_eq),
    ⟨rfl, hw.terminal_eq, entry.buffered, ?_, hw.buffered_sublist⟩⟩
  rw [hw.handed_eq]
  rfl

theorem close_eq {reg : RunRegistry} {jobId : String} {entry : RunEntry}
    (hobj : reg.object jobId = some entry) (hin : jobId ∈ reg.entries) :
    close reg jobId = (reg.delete jobId).store jobId
      { entry with timerArmed := false, sink := none, subscriberOpen := false } := by
  have hremove := remove_store entry hin
  rw [store_eq_self hobj] at hremove
  rw [close, if_pos hin, hremove]
  simp [releaseSubscriber]

theorem receive_exit_sink {reg : RunRegistry} {jobId : String} {entry : RunEntry} {client : Client}
    {exit : RunFrame} (hin : jobId ∈ reg.entries) (hsink : entry.sink = some client)
    (hexit : exit.isExit = true) :
    receive reg entry jobId (.encoded exit) = (reg.delete jobId).store jobId
      { entry with
        handed := entry.handed ++ [(client, exit)], terminal := true, subscriberOpen := false
        timerArmed := false, sink := none } := by
  simp only [receive, Payload.parse, hexit, if_true, sinkOrBuffer, hsink, RunEntry.hand,
    releaseSubscriber, Option.isSome_some]
  exact remove_store _ hin

theorem exit_streaming {reg : RunRegistry} {jobId : String} {entry : RunEntry} {client : Client}
    {seen : List RunFrame} {exit : RunFrame} (hobj : reg.object jobId = some entry)
    (hin : jobId ∈ reg.entries) (hs : Streaming entry client seen)
    (hexit : exit.isExit = true) :
    ∃ reg' entry', ∃ init : List RunFrame,
      step reg (.message jobId (.encoded exit)) = some reg' ∧
      reg'.object jobId = some entry' ∧ entry'.handed = (init ++ [exit]).map (client, ·) ∧
      init.Sublist seen ∧ jobId ∉ reg'.entries := by
  obtain ⟨init, hhanded, hsub⟩ := hs.handed_eq
  have hreceive := receive_exit_sink hin hs.sink_eq hexit
  refine ⟨_, _, init, (step_message _ hobj hs.terminal_eq).trans (congrArg some hreceive),
    store_object _ _ _, ?_, hsub, notMem_delete _ _ _⟩
  simp [hhanded]

/-- Without a client the exit frame is buffered only below the cap. -/
theorem exit_waiting {reg : RunRegistry} {jobId : String} {entry : RunEntry}
    {seen : List RunFrame} {exit : RunFrame} (hobj : reg.object jobId = some entry)
    (hw : Waiting entry seen) (hexit : exit.isExit = true) :
    ∃ entry', step reg (.message jobId (.encoded exit)) = some (reg.store jobId entry') ∧
      entry'.terminal = true ∧ entry'.handed = [] ∧
      entry'.buffered = if payloadLength seen < maxOutputBytes then entry.buffered ++ [exit]
        else entry.buffered := by
  refine ⟨releaseSubscriber { sinkOrBuffer entry exit (.encoded exit) with terminal := true },
    ?_, rfl, ?_, ?_⟩
  · have hsink : (sinkOrBuffer entry exit (.encoded exit)).sink = none :=
      (hw.sinkOrBuffer exit).sink_eq
    rw [step_message _ hobj hw.terminal_eq]
    simp [receive, Payload.parse, hexit, releaseSubscriber, hsink]
  · exact (hw.sinkOrBuffer exit).handed_eq
  · simp only [releaseSubscriber, sinkOrBuffer, hw.sink_eq, ← hw.bytes_lt_iff]
    by_cases hlt : entry.bufferedBytes < maxOutputBytes
    · rw [if_pos hlt, if_pos hlt]
    · rw [if_neg hlt, if_neg hlt]

theorem attach_terminal {reg : RunRegistry} {jobId : String} {entry : RunEntry} (client : Client)
    (hobj : reg.object jobId = some entry) (hin : jobId ∈ reg.entries)
    (hterm : entry.terminal = true) (hhanded : entry.handed = []) :
    ∃ reg' entry', step reg (.attached jobId client) = some reg' ∧
      reg'.object jobId = some entry' ∧ entry'.handed = entry.buffered.map (client, ·) ∧
      jobId ∉ reg'.entries := by
  refine ⟨_, _, congrArg some (attach_over client hobj hin hterm), store_object _ _ _, ?_,
    notMem_delete _ _ _⟩
  rw [hhanded]
  rfl

theorem ended_iff_of_handed {reg : RunRegistry} {jobId : String} {entry : RunEntry}
    {client : Client} {frames published : List RunFrame}
    (hobj : reg.object jobId = some entry) (hhanded : entry.handed = frames.map (client, ·))
    (hgone : jobId ∉ reg.entries) :
    Ended reg jobId client published ↔ frames.Sublist published ∧
      ∃ init last, frames = init ++ [last] ∧ last.isExit = true ∧
        ∀ frame ∈ init, frame.isExit = false := by
  have hto : entry.handedTo client = frames := by
    simp [RunEntry.handedTo, hhanded, List.filter_map, Function.comp_def]
  constructor
  · rintro ⟨e, he, hsub, hlast, -⟩
    rw [hobj, Option.some.injEq] at he
    subst he
    exact hto ▸ ⟨hsub, hlast⟩
  · rintro ⟨hsub, hlast⟩
    exact ⟨entry, hobj, hto.symm ▸ hsub, hto.symm ▸ hlast, hgone⟩

theorem opened_eq_some {reg reg' : RunRegistry} {jobId projectId userId : String}
    (h : step reg (.opened jobId projectId userId) = some reg') :
    reg'.object jobId = some (newEntry jobId projectId userId) ∧ jobId ∈ reg'.entries := by
  simp only [step, openRun, Option.ite_none_right_eq_some] at h
  by_cases hfull : maxActiveRuns ≤ reg.entries.length
  · simp [hfull, Except.toOption] at h
  · simp only [if_neg hfull, Except.toOption, Option.some.injEq] at h
    rw [← h.2]
    exact ⟨store_object _ _ _, List.mem_append_right _ (List.mem_singleton_self _)⟩

/-! ## The whole life of a run -/

/-- A client that attaches before the exit frame gets the ending. -/
theorem ended_of_attached_early {reg reg' : RunRegistry} {jobId : String} {entry : RunEntry}
    {client : Client} {before rest : List RunFrame} {exit : RunFrame}
    (hobj : reg.object jobId = some entry) (hin : jobId ∈ reg.entries) (hw : Waiting entry [])
    (hframes : ∀ frame ∈ before ++ rest, frame.isExit = false) (hexit : exit.isExit = true)
    (h : run step reg (messages jobId before ++
      .attached jobId client :: messages jobId (rest ++ [exit])) = some reg') :
    Ended reg' jobId client ((before ++ rest) ++ [exit]) := by
  obtain ⟨entry₁, hrun₁, hw₁⟩ := run_messages (P := Waiting) (fun _ _ hw => hw.terminal_eq)
    (fun _ _ frame hw => hw.sinkOrBuffer frame) hobj hw
    fun f hf => hframes f (List.mem_append_left _ hf)
  obtain ⟨entry₂, hrun₂, hs₂⟩ := attach_waiting client (store_object reg jobId entry₁) hin hw₁
  obtain ⟨entry₃, hrun₃, hs₃⟩ := run_messages (P := fun e seen => Streaming e client seen)
    (fun _ _ hs => hs.terminal_eq) (fun _ _ frame hs => hs.sinkOrBuffer frame)
    (store_object reg jobId entry₂) hs₂ fun f hf => hframes f (List.mem_append_right _ hf)
  obtain ⟨reg₄, entry₄, init, hrun₄, hobj₄, hhanded₄, hsub₄, hgone₄⟩ :=
    exit_streaming (store_object reg jobId entry₃) hin hs₃ hexit
  rw [store_store] at hrun₂ hrun₃
  have hall : run step reg (messages jobId before ++
      .attached jobId client :: messages jobId (rest ++ [exit])) = some reg₄ := by
    rw [messages_append]
    refine run_append_eq_some.mpr ⟨_, hrun₁, run_cons_eq_some.mpr ⟨_, hrun₂, ?_⟩⟩
    exact run_append_eq_some.mpr ⟨_, hrun₃, run_cons_eq_some.mpr ⟨_, hrun₄, rfl⟩⟩
  rw [hall, Option.some.injEq] at h
  subst h
  refine (ended_iff_of_handed hobj₄ hhanded₄ hgone₄).mpr
    ⟨hsub₄.append (List.Sublist.refl _), init, exit, rfl, hexit, fun f hf => ?_⟩
  exact hframes f (hsub₄.subset hf)

/-- A client that attaches after the exit frame gets the ending exactly if the
payloads before it stayed below the cap. -/
theorem ended_of_attached_late {reg : RunRegistry} {jobId : String} {entry : RunEntry}
    (client : Client) {outputs : List RunFrame} {exit : RunFrame}
    (hobj : reg.object jobId = some entry) (hin : jobId ∈ reg.entries) (hw : Waiting entry [])
    (houtputs : ∀ frame ∈ outputs, frame.isExit = false) (hexit : exit.isExit = true) :
    ∃ reg', run step reg (messages jobId (outputs ++ [exit]) ++ [.attached jobId client]) =
        some reg' ∧
      (Ended reg' jobId client (outputs ++ [exit]) ↔ payloadLength outputs < maxOutputBytes) := by
  obtain ⟨entry₁, hrun₁, hw₁⟩ := run_messages (P := Waiting) (fun _ _ hw => hw.terminal_eq)
    (fun _ _ frame hw => hw.sinkOrBuffer frame) hobj hw houtputs
  obtain ⟨entry₂, hrun₂, hterm₂, hhanded₂, hbuffered₂⟩ :=
    exit_waiting (store_object reg jobId entry₁) hw₁ hexit
  obtain ⟨reg₃, entry₃, hrun₃, hobj₃, hhanded₃, hgone₃⟩ :=
    attach_terminal client (store_object reg jobId entry₂) hin hterm₂ hhanded₂
  rw [store_store] at hrun₂
  have hsub : entry₁.buffered.Sublist outputs := hw₁.buffered_sublist
  refine ⟨reg₃, ?_, ?_⟩
  · rw [messages_append]
    exact run_append_eq_some.mpr ⟨_, run_append_eq_some.mpr
      ⟨_, hrun₁, run_cons_eq_some.mpr ⟨_, hrun₂, rfl⟩⟩, run_cons_eq_some.mpr ⟨_, hrun₃, rfl⟩⟩
  · rw [ended_iff_of_handed hobj₃ hhanded₃ hgone₃, hbuffered₂, List.nil_append]
    by_cases hlt : payloadLength outputs < maxOutputBytes
    · rw [if_pos hlt]
      exact iff_of_true ⟨hsub.append (List.Sublist.refl _), _, exit, rfl, hexit,
        fun f hf => houtputs f (hsub.subset hf)⟩ hlt
    · rw [if_neg hlt]
      refine iff_of_false ?_ hlt
      rintro ⟨-, init, last, heq, hlast, -⟩
      have hmem : last ∈ entry₁.buffered :=
        heq ▸ List.mem_append_right _ (List.mem_singleton_self _)
      rw [houtputs last (hsub.subset hmem)] at hlast
      cases hlast

theorem ended_only {reg : RunRegistry} {jobId : String} {client : Client}
    {published : List RunFrame} :
    Ended (only jobId reg) jobId client published ↔ Ended reg jobId client published := by
  simp only [Ended, only_object, mem_only_entries]

/-- Among any other runs, a run's one client gets its frames in order and its
one exit frame last, and the run leaves the registry, exactly if the client
attached before the exit frame arrived or the payloads of the output stayed
below the cap. -/
theorem run_ends_iff (reg reg' : RunRegistry) (events : List Event)
    (jobId projectId userId : String) (client : Client) (before after outputs : List RunFrame)
    (exit : RunFrame) (houtputs : ∀ frame ∈ outputs, frame.isExit = false)
    (hexit : exit.isExit = true) (hsplit : before ++ after = outputs ++ [exit])
    (hevents : events.filter (fun e => e.jobId = jobId) =
      .opened jobId projectId userId ::
        (messages jobId before ++ .attached jobId client :: messages jobId after))
    (h : run step reg events = some reg') :
    Ended reg' jobId client (outputs ++ [exit]) ↔
      after ≠ [] ∨ payloadLength outputs < maxOutputBytes := by
  have hown := run_only jobId h
  rw [hevents, run_cons_eq_some] at hown
  obtain ⟨reg₁, hopened, hrest⟩ := hown
  obtain ⟨hobj, hin⟩ := opened_eq_some hopened
  have hw := waiting_newEntry jobId projectId userId
  rw [← ended_only]
  rcases List.eq_nil_or_concat after with rfl | ⟨rest, last, rfl⟩
  · obtain ⟨reg₂, hrun, hiff⟩ := ended_of_attached_late client hobj hin hw houtputs hexit
    rw [List.append_nil] at hsplit
    rw [hsplit] at hrest
    have heq : reg₂ = only jobId reg' := Option.some.inj (hrun.symm.trans hrest)
    rw [← heq, hiff]
    simp
  · rw [List.concat_eq_append, ← List.append_assoc] at hsplit
    obtain ⟨hout, hlast⟩ := List.append_inj' hsplit rfl
    rw [List.cons.injEq] at hlast
    subst hout
    rw [List.concat_eq_append, hlast.1] at hrest
    simpa using ended_of_attached_early hobj hin hw houtputs hexit hrest

/-- The exit frame of a program that returned 0 after 40 ms. -/
def exitZero : RunFrame := .exit .ok (some 0) 40 false none

/-- A client that attaches between the two lines of a program. -/
def watched : List Event :=
  [.opened "job-1" "project-1" "user-1", .message "job-1" (.encoded (.stdout "1\n")),
    .attached "job-1" 0, .message "job-1" (.encoded (.stdout "2\n")),
    .message "job-1" (.encoded exitZero)]

theorem run_ends_iff_watched :
    Ended ((run step .empty watched).getD .empty) "job-1" 0
        ([.stdout "1\n", .stdout "2\n"] ++ [exitZero]) ↔
      [.stdout "2\n", exitZero] ≠ ([] : List RunFrame) ∨
        payloadLength [.stdout "1\n", .stdout "2\n"] < maxOutputBytes :=
  run_ends_iff .empty _ watched "job-1" "project-1" "user-1" 0 [.stdout "1\n"]
    [.stdout "2\n", exitZero] [.stdout "1\n", .stdout "2\n"] exitZero
    (by simp [RunFrame.isExit]) rfl rfl rfl rfl

/-- A million bytes of output in 16 chunks, which the runner's cap lets through. -/
def millionBytes : List RunFrame :=
  List.replicate 16 (.stdout (String.ofList (List.replicate 62500 'a')))

theorem plain_a : Plain 'a' := ⟨rfl, rfl, rfl⟩

theorem payloadLength_millionBytes : payloadLength millionBytes = 1000432 := by
  rw [payloadLength, millionBytes, List.map_replicate, List.sum_replicate,
    length_stdout_replicate plain_a, Nat.nsmul_eq_mul]

theorem outputBytes_millionBytes : (millionBytes.map outputBytes).sum = 1000000 := by
  rw [millionBytes, List.map_replicate, List.sum_replicate,
    outputBytes_stdout_replicate plain_a, Nat.nsmul_eq_mul]

/-- The envelopes push the buffered payloads past the cap, and a client that
attaches after the program has ended never sees it end. -/
theorem late_client_misses_exit :
    (millionBytes.map outputBytes).sum ≤ maxOutputBytes ∧
      ¬ ∀ reg', run step .empty (.opened "job-1" "project-1" "user-1" ::
          (messages "job-1" (millionBytes ++ [exitZero]) ++ [.attached "job-1" 0])) = some reg' →
        Ended reg' "job-1" 0 (millionBytes ++ [exitZero]) := by
  refine ⟨Nat.le_of_eq outputBytes_millionBytes, fun hall => ?_⟩
  have hopened : step .empty (.opened "job-1" "project-1" "user-1") =
      some (((RunRegistry.empty.store "job-1" (newEntry "job-1" "project-1" "user-1"))).set
        "job-1") := rfl
  obtain ⟨hobj, hin⟩ := opened_eq_some hopened
  have houtputs : ∀ frame ∈ millionBytes, frame.isExit = false := by
    intro frame hframe
    rw [List.eq_of_mem_replicate hframe]
    rfl
  obtain ⟨reg', hrun, hiff⟩ := ended_of_attached_late 0 hobj hin (waiting_newEntry _ _ _)
    houtputs (show exitZero.isExit = true from rfl)
  have hlt := hiff.mp (hall reg' (run_cons_eq_some.mpr ⟨_, hopened, hrun⟩))
  rw [payloadLength_millionBytes] at hlt
  exact absurd hlt (by decide)

end CollabIDE.Execution.Registry
