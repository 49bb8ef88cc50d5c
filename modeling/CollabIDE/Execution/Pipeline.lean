import CollabIDE.Execution.Service
/-!
# From the request to the frames

A job is in the queue only after its run has been subscribed to, so nothing the
runner publishes is lost while the registry keeps the run: what was received and
what is under way are all frames of the handler.
-/

namespace CollabIDE.Execution.Service

open CollabIDE.Lib.Json CollabIDE.Lib.Machine CollabIDE.Shared.Languages CollabIDE.Runner.Sandbox
open CollabIDE.Execution.Wire CollabIDE.Execution.Registry CollabIDE.Execution.Delivery
open CollabIDE.Runner

/-! ## The jobs -/

/-- What `startRun` has checked of a job. -/
structure Accepted (toLowerCase : String → String) (jobId : String) (job : RunJob) : Prop where
  jobId_eq : job.jobId = jobId
  language : languageForPath toLowerCase job.entrypoint = some job.languageId
  entrypoint : ∃ file ∈ job.files, file.path = job.entrypoint
  files_le : job.files.length ≤ maxRunFiles
  bytes_le : inputBytes job.files ≤ maxRunInputBytes

variable {toLowerCase : String → String} {jobId : String}

/-- The checks of the runner are among those of the server. -/
theorem Accepted.checkSpec {job : RunJob} (h : Accepted toLowerCase jobId job) :
    checkSpec (runSpec job) = .ok () := by
  obtain ⟨config, hconfig, -⟩ := languageById_of_languageForPath h.language
  obtain ⟨file, hfile, hpath⟩ := h.entrypoint
  have hknown : languageById (runSpec job).languageId ≠ none := by
    change languageById job.languageId ≠ none
    rw [hconfig]
    exact Option.some_ne_none config
  have hthere : (runSpec job).files.any (fun f => f.path = (runSpec job).entrypoint) = true :=
    List.any_eq_true.mpr ⟨file, hfile, decide_eq_true hpath⟩
  rw [Sandbox.checkSpec, if_neg hknown, if_pos hthere]

theorem resolveLanguage_eq_ok {entrypoint languageId : String} :
    resolveLanguage toLowerCase entrypoint = .ok languageId ↔
      languageForPath toLowerCase entrypoint = some languageId := by
  unfold resolveLanguage
  cases languageForPath toLowerCase entrypoint <;> simp

theorem checkFiles_eq_ok {files : List RunFile} {entrypoint : String}
    (h : checkFiles files entrypoint = .ok ()) :
    (∃ file ∈ files, file.path = entrypoint) ∧ files.length ≤ maxRunFiles ∧
      inputBytes files ≤ maxRunInputBytes := by
  unfold checkFiles at h
  cases hfind : files.find? fun file => file.path = entrypoint with
  | none =>
      rw [hfind] at h
      cases h
  | some file =>
      rw [hfind] at h
      dsimp only at h
      unfold assertWithinCaps at h
      split_ifs at h with hmany hlarge
      exact ⟨⟨file, List.mem_of_find?_eq_some hfind, by simpa using List.find?_some hfind⟩,
        Nat.le_of_not_lt hmany, Nat.le_of_not_lt hlarge⟩

/-! ## The frames of the handler -/

theorem published_step {handler handler' : Worker.Handler} {e : Worker.Event}
    (h : Worker.step handler e = some handler') :
    handler.published <+: handler'.published := by
  have hsend (frame : RunFrame) :
      handler.published <+: (Worker.sendExit handler frame).published := by
    unfold Worker.sendExit
    split
    · exact List.prefix_rfl
    · exact List.prefix_append _ _
  cases e with
  | sandbox e =>
      unfold Worker.step at h
      rw [Option.ite_none_left_eq_some] at h
      obtain ⟨run, -, rfl⟩ := Option.map_eq_some_iff.mp h.2
      exact List.prefix_append _ _
  | returns elapsedMs =>
      unfold Worker.step at h
      rw [Option.ite_none_right_eq_some] at h
      obtain ⟨result, -, rfl⟩ := Option.map_eq_some_iff.mp h.2
      exact hsend _
  | throws =>
      unfold Worker.step at h
      rw [Option.ite_none_right_eq_some] at h
      obtain rfl := Option.some.inj h.2
      exact hsend _
  | finishes =>
      unfold Worker.step at h
      rw [Option.ite_none_right_eq_some] at h
      obtain rfl := Option.some.inj h.2
      exact hsend _

theorem exitLast_published {handler : Worker.Handler} (h : Worker.Inv handler) :
    ExitLast handler.published := by
  have houtput : ∀ frame ∈ handler.run.forwarded.map Worker.outputFrame,
      frame.isExit = false := by
    intro frame hframe
    obtain ⟨text, -, rfl⟩ := List.mem_map.mp hframe
    exact Worker.isExit_outputFrame text
  cases hsent : handler.terminalSent with
  | false =>
      rw [(h.before_exit hsent).2]
      exact exitLast_of_no_exit houtput
  | true =>
      obtain ⟨-, -, status, code, ms, message, hpublished⟩ := h.after_exit hsent
      rw [hpublished]
      exact exitLast_concat houtput _

/-- Nothing is published behind an exit frame. -/
theorem eq_of_exit {frames frames' : List RunFrame} (hlast : ExitLast frames')
    (hfront : frames <+: frames') (hexit : ∃ frame ∈ frames, frame.isExit = true) :
    frames' = frames := by
  obtain ⟨rest, rfl⟩ := hfront
  obtain ⟨frame, hframe, hisExit⟩ := hexit
  obtain ⟨front, back, rfl⟩ := List.append_of_mem hframe
  have hnil := hlast front frame (back ++ rest) (by simp) hisExit
  rw [(List.append_eq_nil_iff.mp hnil).2, List.append_nil]

/-! ## What the streams leave of the entry -/

section Entry

variable {streams streams' : Streams.State} {reg : RunRegistry} {entry entry' : RunEntry}

/-- The run goes on as before, or without its connection. -/
structure Carries (entry entry' : RunEntry) : Prop where
  terminal_eq : entry'.terminal = entry.terminal
  open_of_open : entry'.subscriberOpen = true → entry.subscriberOpen = true

theorem Carries.refl (entry : RunEntry) : Carries entry entry := ⟨rfl, id⟩

theorem carries_close (hobj : reg.object jobId = some entry) :
    ∃ entry', (close reg jobId).object jobId = some entry' ∧ Carries entry entry' := by
  by_cases hin : jobId ∈ reg.entries
  · rw [close_eq hobj hin]
    exact ⟨_, store_object _ _ _, rfl, nofun⟩
  · rw [close, if_neg hin]
    exact ⟨entry, hobj, .refl entry⟩

theorem carries_attach (client : Client) (hobj : reg.object jobId = some entry)
    (hin : jobId ∈ reg.entries) :
    ∃ entry', (attach reg jobId client).1.object jobId = some entry' ∧ Carries entry entry' := by
  cases hterm : entry.terminal with
  | false =>
      rw [attach_live client hobj hin hterm]
      exact ⟨_, store_object _ _ _, rfl, id⟩
  | true =>
      rw [attach_over client hobj hin hterm]
      exact ⟨_, store_object _ _ _, rfl, id⟩

theorem carries_detach (hobj : reg.object jobId = some entry) :
    ∃ entry', (detach reg jobId).object jobId = some entry' ∧ Carries entry entry' := by
  simp only [detach, hobj]
  split
  · exact ⟨_, store_object _ _ _, rfl, id⟩
  · exact ⟨entry, hobj, .refl entry⟩

theorem carries_step {e : Streams.Event} (hinv : Streams.Inv jobId streams entry)
    (hno : ∀ payload, e ≠ .received payload) (h : Streams.step jobId streams e = some streams') :
    ∃ entry', streams'.reg.object jobId = some entry' ∧ Carries entry entry' := by
  cases e with
  | streamed projectId client =>
      rcases Streams.streamed_cases hinv h with ⟨-, rfl⟩ | ⟨hfind, hfresh, -⟩
      · exact ⟨entry, hinv.object_eq, .refl entry⟩
      · rw [Streams.step, if_neg hfresh, hfind, Option.isSome_some, if_pos rfl] at h
        obtain rfl := Option.some.inj h
        exact carries_attach client hinv.object_eq (Streams.findRun_eq_some.mp hfind).2.1
  | received payload => exact absurd rfl (hno payload)
  | disconnected client =>
      rw [Streams.step, Option.ite_none_right_eq_some] at h
      obtain rfl := Option.some.inj h.2
      exact carries_detach hinv.object_eq
  | expired =>
      rw [Streams.step, Option.ite_none_right_eq_some] at h
      obtain rfl := Option.some.inj h.2
      exact carries_close hinv.object_eq

theorem carries_sinkOrBuffer (entry : RunEntry) (frame : RunFrame) (payload : Payload) :
    (sinkOrBuffer entry frame payload).terminal = entry.terminal ∧
      (sinkOrBuffer entry frame payload).sink = entry.sink ∧
      (sinkOrBuffer entry frame payload).subscriberOpen = entry.subscriberOpen := by
  unfold sinkOrBuffer
  split
  · exact ⟨rfl, rfl, rfl⟩
  · split <;> exact ⟨rfl, rfl, rfl⟩

theorem received_step {frame : RunFrame} (hinv : Streams.Inv jobId streams entry)
    (h : Streams.step jobId streams (.received (.encoded frame)) = some streams') :
    entry.terminal = false ∧ streams'.served = streams.served ∧
      ∃ entry', streams'.reg.object jobId = some entry' ∧
        entry'.handed = (sinkOrBuffer entry frame (.encoded frame)).handed ∧
        entry'.buffered = (sinkOrBuffer entry frame (.encoded frame)).buffered ∧
        entry'.terminal = frame.isExit ∧
        (entry'.terminal = false → entry'.sink = entry.sink) ∧
        (entry'.subscriberOpen = true → entry.subscriberOpen = true) := by
  obtain ⟨reg', hmessage, rfl⟩ := Option.map_eq_some_iff.mp h
  rw [Registry.step, hinv.object_eq] at hmessage
  dsimp only at hmessage
  rw [Option.ite_none_left_eq_some] at hmessage
  obtain ⟨hlive, hreceive⟩ := hmessage
  obtain rfl := Option.some.inj hreceive
  have hover : entry.terminal = false := eq_false_of_ne_true hlive
  refine ⟨hover, rfl, ?_⟩
  obtain ⟨hterm, hsink, hsubscriber⟩ := carries_sinkOrBuffer entry frame (.encoded frame)
  rw [hover] at hterm
  simp only [receive, Payload.parse]
  cases hexit : frame.isExit with
  | false =>
      exact ⟨_, store_object _ _ _, rfl, rfl, hterm, fun _ => hsink,
        fun h => hsubscriber ▸ h⟩
  | true =>
      rw [if_pos rfl]
      split
      · next hsome =>
        obtain ⟨client, hclient⟩ := Option.isSome_iff_exists.mp hsome
        rw [remove_store _ (hinv.sink_live client (hsink.symm.trans hclient)).1]
        exact ⟨_, store_object _ _ _, rfl, rfl, rfl,
          fun h => absurd h.symm Bool.false_ne_true, fun h => absurd h Bool.false_ne_true⟩
      · exact ⟨_, store_object _ _ _, rfl, rfl, rfl,
          fun h => absurd h.symm Bool.false_ne_true, fun h => absurd h Bool.false_ne_true⟩

end Entry

/-! ## What one step does -/

/-- The call has not subscribed yet. -/
def Phase.early : Phase → Bool
  | .uncalled | .flushing .. | .listing .. | .opening .. | .subscribing .. => true
  | .adding | .answered _ | .thrown => false

/-- The call has subscribed, and has not failed. -/
def Phase.subscribed : Phase → Bool
  | .adding | .answered (.ok _) => true
  | _ => false

/-- What the call has checked so far. -/
def Checked (toLowerCase : String → String) (jobId : String) : Phase → Prop
  | .flushing _ _ entrypoint languageId | .listing _ _ entrypoint languageId =>
    languageForPath toLowerCase entrypoint = some languageId
  | .opening _ job | .subscribing _ job _ => Accepted toLowerCase jobId job
  | _ => True

/-- The steps, each with what it takes. -/
inductive Took (toLowerCase : String → String) (jobId : String) (s : State) :
    Event → State → Prop
  | calls {e : Event} (phase : Phase) (hearly : s.phase.early = true)
      (hphase : phase.subscribed = false)
      (hchecked : Checked toLowerCase jobId s.phase → Checked toLowerCase jobId phase) :
      Took toLowerCase jobId s e { s with phase }
  | subscribed {reg : RunRegistry} {userId : String} {job : RunJob} {timerArmed : Bool}
      (hphase : s.phase = .subscribing userId job timerArmed) :
      Took toLowerCase jobId s (.subscribed reg) { s with
        phase := .adding
        pending := some job
        connected := true
        streams := ⟨insertEntry jobId reg job.projectId userId timerArmed, [], []⟩ }
  | enqueued {job : RunJob} (hpending : s.pending = some job) :
      Took toLowerCase jobId s .enqueued
        { s with pending := none, queue := some (stringify (jobValue job)) }
  | added (hphase : s.phase = .adding) (hpending : s.pending = none) :
      Took toLowerCase jobId s .added { s with phase := .answered (.ok jobId) }
  | addFails (hphase : s.phase = .adding) :
      Took toLowerCase jobId s .addFails { s with
        phase := .thrown
        streams := { s.streams with reg := close s.streams.reg jobId } }
  | taken {text : List Char} {job : RunJob} (hqueue : s.queue = some text)
      (hdata : jobData text = some job) :
      Took toLowerCase jobId s .taken
        { s with queue := none, handler := some (Worker.start (runSpec job)) }
  | ran {e : Worker.Event} {handler handler' : Worker.Handler}
      (hhandler : s.handler = some handler) (hstep : Worker.step handler e = some handler') :
      Took toLowerCase jobId s (.ran e) (runs s handler handler')
  | delivered {frame : RunFrame} {rest : List RunFrame} {streams : Streams.State}
      (htransit : s.transit = frame :: rest)
      (hstep : Streams.step jobId s.streams (.received (.encoded frame)) = some streams) :
      Took toLowerCase jobId s .delivered
        { s with streams, transit := rest, received := s.received ++ [frame] }
  | quit (hquitting : quitting jobId s = true) :
      Took toLowerCase jobId s .quit { s with connected := false }
  | streamed {projectId : String} {client : Client} {streams : Streams.State}
      (hstep : Streams.step jobId s.streams (.streamed projectId client) = some streams) :
      Took toLowerCase jobId s (.streamed projectId client) { s with streams }
  | disconnected {client : Client} {streams : Streams.State}
      (hstep : Streams.step jobId s.streams (.disconnected client) = some streams) :
      Took toLowerCase jobId s (.disconnected client) { s with streams }
  | expired {streams : Streams.State}
      (hstep : Streams.step jobId s.streams .expired = some streams) :
      Took toLowerCase jobId s .expired { s with streams }

variable {s t : State} {e : Event}

theorem took (h : step toLowerCase jobId s e = some t) : Took toLowerCase jobId s e t := by
  cases e with
  | requested projectId userId entrypoint =>
      rw [step] at h
      split at h
      · next hphase =>
          have hearly : s.phase.early = true := by rw [hphase]; rfl
          split at h
          · next languageId hlanguage =>
              obtain rfl := Option.some.inj h
              exact .calls _ hearly rfl fun _ => resolveLanguage_eq_ok.mp hlanguage
          · obtain rfl := Option.some.inj h
            exact .calls _ hearly rfl fun _ => trivial
      · cases h
  | flushed =>
      rw [step] at h
      split at h
      · next hphase =>
          obtain rfl := Option.some.inj h
          refine .calls _ (by rw [hphase]; rfl) rfl fun hchecked => ?_
          rw [hphase] at hchecked
          exact hchecked
      · cases h
  | listed files =>
      rw [step] at h
      split at h
      · next projectId userId entrypoint languageId hphase =>
          have hearly : s.phase.early = true := by rw [hphase]; rfl
          split at h
          · next hfiles =>
              obtain rfl := Option.some.inj h
              refine .calls _ hearly rfl fun hchecked => ?_
              rw [hphase] at hchecked
              obtain ⟨hthere, hmany, hlarge⟩ := checkFiles_eq_ok hfiles
              exact ⟨rfl, hchecked, hthere, hmany, hlarge⟩
          · obtain rfl := Option.some.inj h
            exact .calls _ hearly rfl fun _ => trivial
      · cases h
  | opened reg =>
      rw [step] at h
      split at h
      · next userId job hphase =>
          have hearly : s.phase.early = true := by rw [hphase]; rfl
          split at h
          · obtain rfl := Option.some.inj h
            refine .calls _ hearly rfl fun hchecked => ?_
            rw [hphase] at hchecked
            exact hchecked
          · obtain rfl := Option.some.inj h
            exact .calls _ hearly rfl fun _ => trivial
      · cases h
  | subscribed reg =>
      rw [step] at h
      split at h
      · next hphase =>
          obtain rfl := Option.some.inj h
          exact .subscribed hphase
      · cases h
  | fails =>
      rw [step] at h
      split at h
      iterate 3
        next hphase =>
          obtain rfl := Option.some.inj h
          exact .calls _ (by rw [hphase]; rfl) rfl fun _ => trivial
      · cases h
  | enqueued =>
      obtain ⟨job, hpending, rfl⟩ := Option.map_eq_some_iff.mp h
      exact .enqueued hpending
  | added =>
      rw [step] at h
      split at h
      · next hphase =>
          rw [Option.ite_none_right_eq_some] at h
          obtain rfl := Option.some.inj h.2
          exact .added hphase h.1
      · cases h
  | addFails =>
      rw [step] at h
      split at h
      · next hphase =>
          obtain rfl := Option.some.inj h
          exact .addFails hphase
      · cases h
  | taken =>
      obtain ⟨text, hqueue, h⟩ := Option.bind_eq_some_iff.mp h
      obtain ⟨job, hdata, h⟩ := Option.bind_eq_some_iff.mp h
      obtain rfl := Option.some.inj h
      exact .taken hqueue hdata
  | ran e =>
      obtain ⟨handler, hhandler, h⟩ := Option.bind_eq_some_iff.mp h
      obtain ⟨handler', hstep, h⟩ := Option.bind_eq_some_iff.mp h
      obtain rfl := Option.some.inj h
      exact .ran hhandler hstep
  | delivered =>
      rw [step] at h
      split at h
      · next frame rest htransit =>
          obtain ⟨u, hu, rfl⟩ := Option.map_eq_some_iff.mp h
          obtain ⟨streams, hstep, rfl⟩ := Option.map_eq_some_iff.mp hu
          exact .delivered htransit hstep
      · cases h
  | quit =>
      rw [step, Option.ite_none_right_eq_some] at h
      obtain rfl := Option.some.inj h.2
      exact .quit h.1
  | streamed projectId client =>
      obtain ⟨streams, hstep, rfl⟩ := Option.map_eq_some_iff.mp h
      exact .streamed hstep
  | disconnected client =>
      obtain ⟨streams, hstep, rfl⟩ := Option.map_eq_some_iff.mp h
      exact .disconnected hstep
  | expired =>
      rw [step] at h
      split at h
      · next userId job timerArmed hphase =>
          rw [Option.ite_none_right_eq_some] at h
          obtain rfl := Option.some.inj h.2
          refine .calls _ (by rw [hphase]; rfl) rfl fun hchecked => ?_
          rw [hphase] at hchecked
          exact hchecked
      · obtain ⟨streams, hstep, rfl⟩ := Option.map_eq_some_iff.mp h
        exact .expired hstep

/-! ## The jobs of a run -/

/-- Everything on the way to the runner has been checked, and is there once. -/
structure Jobs (toLowerCase : String → String) (jobId : String) (s : State) : Prop where
  checked : Checked toLowerCase jobId s.phase
  pending : ∀ job, s.pending = some job →
    Accepted toLowerCase jobId job ∧ s.queue = none ∧ s.handler = none
  queue : ∀ text, s.queue = some text → s.handler = none ∧
    ∃ job, Accepted toLowerCase jobId job ∧ text = stringify (jobValue job)
  handler : ∀ handler, s.handler = some handler →
    ∃ job events, Accepted toLowerCase jobId job ∧
      run Worker.step (Worker.start (runSpec job)) events = some handler

/-- Nothing of the run is there but the call. -/
structure Idle (s : State) : Prop where
  pending_eq : s.pending = none
  queue_eq : s.queue = none
  handler_eq : s.handler = none
  transit_eq : s.transit = []
  received_eq : s.received = []
  streams_eq : s.streams = ⟨.empty, [], []⟩

/-- What was received and what is under way is of the handler, and all of it as long as the
connection is there and once the exit frame has come. -/
structure Live (jobId : String) (s : State) (entry : RunEntry) : Prop where
  inv : Streams.Inv jobId s.streams entry
  delivers : Delivers entry s.received
  seen : s.received ++ s.transit <+: published s
  connected : entry.subscriberOpen = true → s.connected = true
  complete : s.connected = true → s.received ++ s.transit = published s
  finished : entry.terminal = true →
    s.received = published s ∧ ∃ frame ∈ s.received, frame.isExit = true

structure Inv (toLowerCase : String → String) (jobId : String) (s : State) : Prop where
  jobs : Jobs toLowerCase jobId s
  early : s.phase.early = true → Idle s
  subscribed : s.phase.subscribed = true → ∃ entry, Live jobId s entry
  stage : Idle s ∨ ∃ entry, Live jobId s entry

theorem inv_init : Inv toLowerCase jobId State.init where
  jobs := ⟨trivial, fun _ h => absurd h.symm (Option.some_ne_none _),
    fun _ h => absurd h.symm (Option.some_ne_none _),
    fun _ h => absurd h.symm (Option.some_ne_none _)⟩
  early _ := ⟨rfl, rfl, rfl, rfl, rfl, rfl⟩
  subscribed h := absurd h Bool.false_ne_true
  stage := .inl ⟨rfl, rfl, rfl, rfl, rfl, rfl⟩

theorem Jobs.handler_inv {handler : Worker.Handler} (h : Jobs toLowerCase jobId s)
    (hhandler : s.handler = some handler) : Worker.Inv handler := by
  obtain ⟨job, events, -, hrun⟩ := h.handler handler hhandler
  exact Worker.inv_run hrun

theorem jobs_step (h : Inv toLowerCase jobId s) (ht : Took toLowerCase jobId s e t) :
    Jobs toLowerCase jobId t := by
  obtain ⟨hjobs, hearly, -, -⟩ := h
  cases ht with
  | calls phase _ _ hchecked =>
      exact ⟨hchecked hjobs.checked, hjobs.pending, hjobs.queue, hjobs.handler⟩
  | subscribed hphase =>
      have hidle := hearly (by rw [hphase]; rfl)
      have hchecked := hjobs.checked
      rw [hphase] at hchecked
      refine ⟨trivial, fun job hjob => ?_, hjobs.queue, hjobs.handler⟩
      obtain rfl := Option.some.inj hjob
      exact ⟨hchecked, hidle.queue_eq, hidle.handler_eq⟩
  | @enqueued job hpending =>
      obtain ⟨haccepted, -, hhandler⟩ := hjobs.pending job hpending
      refine ⟨hjobs.checked, nofun, fun text htext => ?_, hjobs.handler⟩
      exact ⟨hhandler, job, haccepted, (Option.some.inj htext).symm⟩
  | added hphase hpending => exact ⟨trivial, hjobs.pending, hjobs.queue, hjobs.handler⟩
  | addFails hphase => exact ⟨trivial, hjobs.pending, hjobs.queue, hjobs.handler⟩
  | taken hqueue hdata =>
      obtain ⟨-, job, haccepted, rfl⟩ := hjobs.queue _ hqueue
      rw [jobData_stringify] at hdata
      obtain rfl := Option.some.inj hdata
      refine ⟨hjobs.checked, fun other hother => ?_, nofun, fun handler hhandler => ?_⟩
      · have hnone := (hjobs.pending other hother).2.1
        rw [hqueue] at hnone
        cases hnone
      · obtain rfl := Option.some.inj hhandler
        exact ⟨job, [], haccepted, rfl⟩
  | @ran e handler handler' hhandler hstep =>
      refine ⟨hjobs.checked, fun job hjob => ?_, fun text htext => ?_, fun other hother => ?_⟩
      · have hnone := (hjobs.pending job hjob).2.2
        rw [hhandler] at hnone
        cases hnone
      · have hnone := (hjobs.queue text htext).1
        rw [hhandler] at hnone
        cases hnone
      · obtain rfl := Option.some.inj hother
        obtain ⟨job, events, haccepted, hrun⟩ := hjobs.handler handler hhandler
        refine ⟨job, events ++ [e], haccepted, ?_⟩
        exact run_append_eq_some.mpr ⟨handler, hrun, run_cons_eq_some.mpr ⟨_, hstep, rfl⟩⟩
  | delivered _ _ | quit _ | streamed _ | disconnected _ | expired _ =>
      exact ⟨hjobs.checked, hjobs.pending, hjobs.queue, hjobs.handler⟩

/-! ## No frame is lost -/

theorem live_insert {reg : RunRegistry} {projectId userId : String} {timerArmed : Bool}
    (hstreams : s.streams = ⟨insertEntry jobId reg projectId userId timerArmed, [], []⟩)
    (hconnected : s.connected = true) (hreceived : s.received = []) (htransit : s.transit = [])
    (hpublished : published s = []) :
    Live jobId s { newEntry jobId projectId userId with timerArmed } := by
  have hin : jobId ∈ (insertEntry jobId reg projectId userId timerArmed).entries :=
    List.mem_append_right _ (List.mem_singleton_self jobId)
  refine ⟨?_, ?_, ?_, fun _ => hconnected, ?_, nofun⟩
  · rw [hstreams]
    exact ⟨store_object _ _ _, nofun, nofun, fun _ => ⟨nofun, nofun⟩, nofun, fun _ => ⟨hin, rfl⟩⟩
  · rw [hreceived]
    exact (delivers_newEntry jobId projectId userId).of_eq rfl rfl
  · rw [hreceived, htransit]
    exact List.nil_prefix
  · rw [hreceived, htransit, hpublished]
    exact fun _ => rfl

theorem Live.carries {entry entry' : RunEntry} {streams : Streams.State}
    (h : Live jobId s entry) (hinv : Streams.Inv jobId streams entry')
    (hdelivers : Delivers entry' s.received) (hcarries : Carries entry entry') :
    Live jobId { s with streams } entry' where
  inv := hinv
  delivers := hdelivers
  seen := h.seen
  connected hopen := h.connected (hcarries.open_of_open hopen)
  complete := h.complete
  finished hterm := h.finished (hcarries.terminal_eq ▸ hterm)

theorem Live.streams {entry : RunEntry} {streams : Streams.State} {ev : Streams.Event}
    (h : Live jobId s entry) (hno : ∀ payload, ev ≠ .received payload)
    (hstep : Streams.step jobId s.streams ev = some streams) :
    ∃ entry', Live jobId { s with streams } entry' := by
  obtain ⟨entry', hinv, hdelivers⟩ := delivers_step h.inv h.delivers hstep
  obtain ⟨entry'', hobj, hcarries⟩ := carries_step h.inv hno hstep
  obtain rfl := Option.some.inj (hobj.symm.trans hinv.object_eq)
  have hframe : frameOf ev = none := by
    cases ev with
    | received payload => exact absurd rfl (hno payload)
    | streamed _ _ | disconnected _ | expired => rfl
  rw [hframe, Option.toList_none, List.append_nil] at hdelivers
  exact ⟨entry'', h.carries hinv hdelivers hcarries⟩

theorem Live.close {entry : RunEntry} (h : Live jobId s entry) :
    ∃ entry', Live jobId { s with streams := { s.streams with reg := close s.streams.reg jobId } }
      entry' := by
  obtain ⟨entry', hobj, hcarries⟩ := carries_close h.inv.object_eq
  obtain ⟨entry'', hobj', hhanded, hbuffered⟩ := object_close h.inv.object_eq
  obtain rfl := Option.some.inj (hobj.symm.trans hobj')
  refine ⟨entry', h.carries ?_ (h.delivers.of_eq hhanded hbuffered) hcarries⟩
  by_cases hin : jobId ∈ s.streams.reg.entries
  · rw [close_eq h.inv.object_eq hin, store_object] at hobj
    obtain rfl := Option.some.inj hobj
    exact ⟨hobj', h.inv.handed_served, h.inv.streams_served, h.inv.no_exit, nofun, nofun⟩
  · rw [Registry.close, if_neg hin] at hobj ⊢
    obtain rfl := Option.some.inj (hobj.symm.trans h.inv.object_eq)
    exact h.inv

theorem Live.ran {entry : RunEntry} {handler handler' : Worker.Handler} {ev : Worker.Event}
    (h : Live jobId s entry) (hinv : Worker.Inv handler') (hhandler : s.handler = some handler)
    (hstep : Worker.step handler ev = some handler') :
    Live jobId (runs s handler handler') entry := by
  have hmore := published_step hstep
  have hold : published s = handler.published := by rw [published, hhandler]; rfl
  have hover : entry.terminal = true → handler'.published = handler.published := by
    intro hterm
    obtain ⟨hall, hexit⟩ := h.finished hterm
    rw [hall, hold] at hexit
    exact eq_of_exit (exitLast_published hinv) hmore hexit
  refine ⟨h.inv, h.delivers, ?_, h.connected, fun hconnected => ?_, fun hterm => ?_⟩
  · change s.received ++ (if s.connected then _ else _) <+: handler'.published
    split
    · next hconnected =>
        rw [← List.append_assoc, h.complete hconnected, hold]
        obtain ⟨rest, hrest⟩ := hmore
        rw [← hrest, List.drop_left]
    · exact h.seen.trans (hold ▸ hmore)
  · change s.received ++ (if s.connected then _ else _) = handler'.published
    rw [if_pos (show s.connected = true from hconnected), ← List.append_assoc,
      h.complete hconnected, hold]
    obtain ⟨rest, hrest⟩ := hmore
    rw [← hrest, List.drop_left]
  · change s.received = handler'.published ∧ _
    rw [hover hterm, ← hold]
    exact h.finished hterm

theorem Live.delivered {entry : RunEntry} {frame : RunFrame} {rest : List RunFrame}
    {streams : Streams.State} (h : Live jobId s entry) (hlast : ExitLast (published s))
    (htransit : s.transit = frame :: rest)
    (hstep : Streams.step jobId s.streams (.received (.encoded frame)) = some streams) :
    ∃ entry', Live jobId
      { s with streams, transit := rest, received := s.received ++ [frame] } entry' := by
  obtain ⟨entry', hinv, hdelivers⟩ := delivers_step h.inv h.delivers hstep
  obtain ⟨-, -, entry'', hobj, -, -, hterm, -, hopen⟩ := received_step h.inv hstep
  obtain rfl := Option.some.inj (hobj.symm.trans hinv.object_eq)
  have hmoved : (s.received ++ [frame]) ++ rest = s.received ++ s.transit := by
    rw [htransit, List.append_assoc, List.singleton_append]
  refine ⟨entry'', hinv, hdelivers, hmoved ▸ h.seen, fun hyes => h.connected (hopen hyes),
    fun hconnected => hmoved.trans (h.complete hconnected), fun hover => ?_⟩
  rw [hterm] at hover
  obtain ⟨more, hmore⟩ := h.seen
  rw [htransit, List.append_assoc, List.cons_append] at hmore
  have hnil : rest ++ more = [] := hlast s.received frame (rest ++ more) hmore.symm hover
  refine ⟨?_, frame, List.mem_append_right _ (List.mem_singleton_self frame), hover⟩
  change s.received ++ [frame] = published s
  rw [← hmore, hnil]

theorem Live.quit {entry : RunEntry} (h : Live jobId s entry)
    (hquitting : quitting jobId s = true) : Live jobId { s with connected := false } entry := by
  have hclosed : entry.subscriberOpen = false := by
    rw [quitting, h.inv.object_eq] at hquitting
    simpa using hquitting
  exact ⟨h.inv, h.delivers, h.seen, fun hopen => absurd (hclosed.symm.trans hopen)
    Bool.false_ne_true, fun hyes => absurd hyes Bool.false_ne_true, h.finished⟩

theorem Jobs.exitLast_published (h : Jobs toLowerCase jobId s) : ExitLast (published s) := by
  cases hhandler : s.handler with
  | none =>
      rw [published, hhandler]
      exact exitLast_of_no_exit nofun
  | some handler =>
      rw [published, hhandler]
      exact Service.exitLast_published (h.handler_inv hhandler)

theorem Idle.streams {streams : Streams.State} {ev : Streams.Event} (h : Idle s)
    (hstep : Streams.step jobId s.streams ev = some streams) : streams = s.streams := by
  rw [h.streams_eq] at hstep ⊢
  cases ev with
  | streamed projectId client => exact (Option.some.inj hstep).symm
  | received payload => cases hstep
  | disconnected client => cases hstep
  | expired => cases hstep

theorem inv_of_streams {streams : Streams.State} {ev : Streams.Event}
    (h : Inv toLowerCase jobId s) (hjobs : Jobs toLowerCase jobId { s with streams })
    (hno : ∀ payload, ev ≠ .received payload)
    (hstep : Streams.step jobId s.streams ev = some streams) :
    Inv toLowerCase jobId { s with streams } := by
  refine ⟨hjobs, fun hearly => ?_, fun hsubscribed => ?_, ?_⟩
  · have hidle := h.early hearly
    rw [hidle.streams hstep]
    exact hidle
  · obtain ⟨entry, hlive⟩ := h.subscribed hsubscribed
    exact hlive.streams hno hstep
  · rcases h.stage with hidle | ⟨entry, hlive⟩
    · rw [hidle.streams hstep]
      exact .inl hidle
    · exact .inr (hlive.streams hno hstep)

theorem Inv.of_live (hjobs : Jobs toLowerCase jobId s) (hearly : s.phase.early = false)
    (hlive : ∃ entry, Live jobId s entry) : Inv toLowerCase jobId s :=
  ⟨hjobs, fun hyes => absurd (hearly.symm.trans hyes) Bool.false_ne_true, fun _ => hlive,
    .inr hlive⟩

/-- Whatever is there but the call is there after the subscription. -/
theorem Inv.live_of_not_idle (h : Inv toLowerCase jobId s) (hnot : ¬ Idle s) :
    s.phase.early = false ∧ ∃ entry, Live jobId s entry :=
  ⟨eq_false_of_ne_true fun hearly => hnot (h.early hearly), h.stage.resolve_left hnot⟩

theorem inv_step (h : Inv toLowerCase jobId s) (ht : Took toLowerCase jobId s e t) :
    Inv toLowerCase jobId t := by
  have hjobs := jobs_step h ht
  cases ht with
  | calls phase hearly hphase hchecked =>
      have hidle := h.early hearly
      have hidle' : Idle { s with phase } :=
        ⟨hidle.1, hidle.2, hidle.3, hidle.4, hidle.5, hidle.6⟩
      exact ⟨hjobs, fun _ => hidle', fun hyes => absurd (hphase.symm.trans hyes)
        Bool.false_ne_true, .inl hidle'⟩
  | @subscribed reg userId job timerArmed hphase =>
      have hidle := h.early (by rw [hphase]; rfl)
      have hpublished : published s = [] := by rw [published, hidle.handler_eq]; rfl
      exact .of_live hjobs rfl
        ⟨_, live_insert rfl rfl hidle.received_eq hidle.transit_eq hpublished⟩
  | enqueued hpending =>
      obtain ⟨hearly, entry, hlive⟩ := h.live_of_not_idle fun hidle =>
        Option.some_ne_none _ (hpending.symm.trans hidle.pending_eq)
      exact .of_live hjobs hearly
        ⟨entry, hlive.inv, hlive.delivers, hlive.seen, hlive.connected, hlive.complete,
          hlive.finished⟩
  | added hphase hpending =>
      obtain ⟨entry, hlive⟩ := h.subscribed (by rw [hphase]; rfl)
      exact .of_live hjobs rfl
        ⟨entry, hlive.inv, hlive.delivers, hlive.seen, hlive.connected, hlive.complete,
          hlive.finished⟩
  | addFails hphase =>
      obtain ⟨entry, hlive⟩ := h.subscribed (by rw [hphase]; rfl)
      obtain ⟨entry', hclosed⟩ := hlive.close
      exact .of_live hjobs rfl
        ⟨entry', hclosed.inv, hclosed.delivers, hclosed.seen, hclosed.connected,
          hclosed.complete, hclosed.finished⟩
  | taken hqueue hdata =>
      obtain ⟨hearly, entry, hlive⟩ := h.live_of_not_idle fun hidle =>
        Option.some_ne_none _ (hqueue.symm.trans hidle.queue_eq)
      have hpublished : published s = [] := by
        rw [published, (h.jobs.queue _ hqueue).1]
        rfl
      have hseen := hlive.seen
      rw [hpublished] at hseen
      refine .of_live hjobs hearly ⟨entry, hlive.inv, hlive.delivers, hseen, hlive.connected,
        fun hconnected => (hlive.complete hconnected).trans hpublished, fun hterm => ?_⟩
      exact ⟨(hlive.finished hterm).1.trans hpublished, (hlive.finished hterm).2⟩
  | ran hhandler hstep =>
      obtain ⟨hearly, entry, hlive⟩ := h.live_of_not_idle fun hidle =>
        Option.some_ne_none _ (hhandler.symm.trans hidle.handler_eq)
      have hinv := Worker.inv_step (h.jobs.handler_inv hhandler) hstep
      exact .of_live hjobs hearly ⟨entry, hlive.ran hinv hhandler hstep⟩
  | delivered htransit hstep =>
      obtain ⟨hearly, entry, hlive⟩ := h.live_of_not_idle fun hidle =>
        List.cons_ne_nil _ _ (htransit.symm.trans hidle.transit_eq)
      exact .of_live hjobs hearly
        (hlive.delivered h.jobs.exitLast_published htransit hstep)
  | quit hquitting =>
      refine ⟨hjobs, fun hearly => ?_, fun hsubscribed => ?_, ?_⟩
      · have hidle := h.early hearly
        exact ⟨hidle.1, hidle.2, hidle.3, hidle.4, hidle.5, hidle.6⟩
      · obtain ⟨entry, hlive⟩ := h.subscribed hsubscribed
        exact ⟨entry, hlive.quit hquitting⟩
      · exact h.stage.imp (fun hidle => ⟨hidle.1, hidle.2, hidle.3, hidle.4, hidle.5, hidle.6⟩)
          fun ⟨entry, hlive⟩ => ⟨entry, hlive.quit hquitting⟩
  | streamed hstep => exact inv_of_streams h hjobs (fun _ heq => by cases heq) hstep
  | disconnected hstep => exact inv_of_streams h hjobs (fun _ heq => by cases heq) hstep
  | expired hstep => exact inv_of_streams h hjobs (fun _ heq => by cases heq) hstep

theorem inv_run {events : List Event}
    (h : run (step toLowerCase jobId) .init events = some s) : Inv toLowerCase jobId s :=
  run_invariant (fun _ _ _ hinv hstep => inv_step hinv (took hstep)) inv_init h

end CollabIDE.Execution.Service
