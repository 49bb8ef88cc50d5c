import CollabIDE.Execution.Pipeline
/-!
# From the program to the browser

What the server enqueues the runner accepts, what the runner publishes the
server receives, and a browser that is there in time and stays reads all of it.
-/

namespace CollabIDE.Execution.Service

open CollabIDE.Lib.Machine CollabIDE.Shared.Languages CollabIDE.Runner.Sandbox
open CollabIDE.Execution.Wire CollabIDE.Execution.Registry CollabIDE.Execution.Delivery
open CollabIDE.Runner

variable {toLowerCase : String → String} {jobId : String} {s t : State} {e : Event}

/-! ## Every run -/

/-- What the runner takes from the queue has the entrypoint among no more files than allowed and a
language that runs it, and so passes what is checked before the files are staged. -/
theorem accepted_of_run {events : List Event}
    (h : run (step toLowerCase jobId) .init events = some s) :
    (∀ text, s.queue = some text → ∃ job, jobData text = some job ∧
      Accepted toLowerCase jobId job ∧ checkSpec (runSpec job) = .ok ()) ∧
    ∀ handler, s.handler = some handler → ∃ job events, Accepted toLowerCase jobId job ∧
      checkSpec (runSpec job) = .ok () ∧
      run Worker.step (Worker.start (runSpec job)) events = some handler := by
  have hjobs := (inv_run h).jobs
  constructor
  · intro text htext
    obtain ⟨-, job, haccepted, rfl⟩ := hjobs.queue text htext
    exact ⟨job, jobData_stringify job, haccepted, haccepted.checkSpec⟩
  · intro handler hhandler
    obtain ⟨job, events, haccepted, hrun⟩ := hjobs.handler handler hhandler
    exact ⟨job, events, haccepted, haccepted.checkSpec, hrun⟩

/-- A start, with a client that attaches at once, up to the frames the program's run has made. -/
def hello : List Event :=
  [.requested "project-1" "user-1" "src/main.py", .flushed,
    .listed [⟨"src/main.py", "print(1)"⟩], .opened .empty, .subscribed .empty, .enqueued, .added,
    .streamed "project-1" 0, .taken] ++
  (Worker.started (.sandbox (.output .stdout "1\n") :: Worker.ended)).map .ran

/-- The sink, whether the run is over, and the frames published. -/
def look (s : State) : Option (Option Client × Bool) × List Client × List RunFrame :=
  ((s.streams.reg.object "job-1").map fun entry => (entry.sink, entry.terminal),
    s.streams.served, published s)

theorem hello_runs : ∃ s, run (step id "job-1") .init hello = some s ∧
    look s = (some (some 0, false), [0], [.stdout "1\n", exitZero]) := by
  have hlook : (run (step id "job-1") .init hello).map look =
      some (some (some 0, false), [0], [.stdout "1\n", exitZero]) := by decide +kernel
  exact Option.map_eq_some_iff.mp hlook

theorem hello_delivered : ∃ s, run (step id "job-1") .init (hello ++ [.delivered]) = some s ∧
    look s = (some (some 0, false), [0], [.stdout "1\n", exitZero]) := by
  have hlook : (run (step id "job-1") .init (hello ++ [.delivered])).map look =
      some (some (some 0, false), [0], [.stdout "1\n", exitZero]) := by decide +kernel
  exact Option.map_eq_some_iff.mp hlook

theorem hello_ends : ∃ s, run (step id "job-1") .init (hello ++ [.delivered] ++ [.delivered]) =
    some s ∧ look s = (some (none, true), [0], [.stdout "1\n", exitZero]) := by
  have hlook : (run (step id "job-1") .init (hello ++ [.delivered] ++ [.delivered])).map look =
      some (some (none, true), [0], [.stdout "1\n", exitZero]) := by decide +kernel
  exact Option.map_eq_some_iff.mp hlook

theorem accepted_of_run_hello : ∃ s handler, run (step id "job-1") .init hello = some s ∧
    s.handler = some handler ∧ ∃ job, checkSpec (runSpec job) = .ok () ∧
      ∃ events, run Worker.step (Worker.start (runSpec job)) events = some handler := by
  obtain ⟨s, h, hlook⟩ := hello_runs
  obtain ⟨handler, hhandler⟩ : ∃ handler, s.handler = some handler := by
    refine Option.ne_none_iff_exists'.mp fun hnone => ?_
    have hpublished := congrArg (fun l => l.2.2) hlook
    rw [look, published, hnone] at hpublished
    cases hpublished
  obtain ⟨job, events, -, hspec, hrun⟩ := (accepted_of_run h).2 handler hhandler
  exact ⟨s, handler, h, hhandler, job, hspec, events, hrun⟩

/-- While the registry listens, every frame the runner has published was received or is under way,
and once the run is over every frame was received.  What a browser reads is published, in order. -/
theorem frames_of_run {events : List Event}
    (h : run (step toLowerCase jobId) .init events = some s) :
    (published s ≠ [] → ∃ entry, s.streams.reg.object jobId = some entry) ∧
    ∀ entry, s.streams.reg.object jobId = some entry →
      (entry.subscriberOpen = true → s.received ++ s.transit = published s) ∧
      (entry.terminal = true → s.received = published s) ∧
      ∀ client chunks, chunks.flatten <+: (respond (entry.handedTo client)).body →
        (Delivery.received chunks).Sublist (published s) ∧ ExitLast (Delivery.received chunks) := by
  rcases (inv_run h).stage with hidle | ⟨entry, hlive⟩
  · have hnone : s.streams.reg.object jobId = none := by rw [hidle.streams_eq]; rfl
    have hpublished : published s = [] := by rw [published, hidle.handler_eq]; rfl
    refine ⟨fun hne => absurd hpublished hne, fun entry hentry => ?_⟩
    rw [hnone] at hentry
    cases hentry
  · refine ⟨fun _ => ⟨entry, hlive.inv.object_eq⟩, fun found hfound => ?_⟩
    obtain rfl := Option.some.inj (hfound.symm.trans hlive.inv.object_eq)
    refine ⟨fun hopen => hlive.complete (hlive.connected hopen),
      fun hterm => (hlive.finished hterm).1, fun client chunks hchunks => ?_⟩
    have hlast := hlive.delivers.handedLast client
    rw [respond_eq hlast] at hchunks
    have hfront := received_prefix hchunks
    refine ⟨(hfront.sublist.trans (hlive.delivers.handed client)).trans ?_, ?_⟩
    · exact ((List.prefix_append _ _).trans hlive.seen).sublist
    · intro front frame back heq hexit
      obtain ⟨rest, hrest⟩ := hfront
      rw [heq, List.append_assoc, List.cons_append] at hrest
      exact (List.append_eq_nil_iff.mp (hlast front frame (back ++ rest) hrest.symm hexit)).1

theorem frames_of_run_hello : ∃ s entry,
    run (step id "job-1") .init (hello ++ [.delivered] ++ [.delivered]) = some s ∧
    s.streams.reg.object "job-1" = some entry ∧ s.received = [.stdout "1\n", exitZero] := by
  obtain ⟨s, h, hlook⟩ := hello_ends
  have hpublished : published s = [.stdout "1\n", exitZero] := congrArg (fun l => l.2.2) hlook
  obtain ⟨hthere, hframes⟩ := frames_of_run h
  obtain ⟨entry, hobj⟩ := hthere (by rw [hpublished]; exact List.cons_ne_nil _ _)
  have hentry := congrArg Prod.fst hlook
  rw [look, hobj] at hentry
  have hterm : entry.terminal = true := congrArg Prod.snd (Option.some.inj hentry)
  exact ⟨s, entry, h, hobj, ((hframes entry hobj).2.1 hterm).trans hpublished⟩

/-! ## A browser that is there in time and stays -/

/-- Only this client comes and none leaves, the entry is not closed, and there is room for what
arrives before the client. -/
def Attends (jobId : String) (client : Client) (s : State) : Event → Prop
  | .streamed _ other => other = client
  | .disconnected _ | .expired | .addFails => False
  | .delivered => ∀ entry, s.streams.reg.object jobId = some entry → entry.sink = none →
      entry.bufferedBytes < maxOutputBytes
  | _ => True

/-- What was received was handed to the client, or waits for it. -/
structure Whole (client : Client) (s : State) (entry : RunEntry) : Prop where
  whole : entry.handedTo client ++ entry.buffered = s.received
  only : ∀ other ∈ s.streams.served, other = client
  there : client ∈ s.streams.served →
    entry.buffered = [] ∧ (entry.terminal = false → entry.sink = some client)

variable {client : Client} {entry : RunEntry}

theorem Whole.delivered {frame : RunFrame} {rest : List RunFrame} {streams : Streams.State}
    (h : Whole client s entry) (hinv : Streams.Inv jobId s.streams entry)
    (hroom : entry.sink = none → entry.bufferedBytes < maxOutputBytes)
    (hstep : Streams.step jobId s.streams (.received (.encoded frame)) = some streams) :
    ∃ entry', streams.reg.object jobId = some entry' ∧ Whole client
      { s with streams, transit := rest, received := s.received ++ [frame] } entry' := by
  obtain ⟨hlive, hserved, entry', hobj, hhanded, hbuffered, -, hsink, -⟩ :=
    received_step hinv hstep
  refine ⟨entry', hobj, ?_⟩
  cases hentry : entry.sink with
  | some other =>
      have hin : other ∈ s.streams.served :=
        hinv.streams_served other (hinv.sink_live other hentry).2.1
      obtain rfl := h.only other hin
      have hempty : entry.buffered = [] := (h.there hin).1
      have hkept : sinkOrBuffer entry frame (.encoded frame) = entry.hand other frame := by
        rw [sinkOrBuffer, hentry]
      have hto : entry'.handedTo other = entry.handedTo other ++ [frame] := by
        rw [RunEntry.handedTo, hhanded, hkept]
        exact handedTo_append_self entry other [frame]
      have hwhole := h.whole
      rw [hempty, List.append_nil] at hwhole
      rw [hkept] at hbuffered
      have hempty' : entry'.buffered = [] := hbuffered.trans hempty
      refine ⟨?_, hserved ▸ h.only, fun _ => ⟨hempty', fun hterm => (hsink hterm).trans hentry⟩⟩
      rw [hto, hempty', hwhole, List.append_nil]
  | none =>
      have hkept : sinkOrBuffer entry frame (.encoded frame) =
          { entry with
            buffered := entry.buffered ++ [frame]
            bufferedBytes := entry.bufferedBytes + (Payload.encoded frame).length } := by
        rw [sinkOrBuffer, hentry]
        exact if_pos (hroom hentry)
      rw [hkept] at hhanded hbuffered
      refine ⟨?_, hserved ▸ h.only, fun hin => ?_⟩
      · rw [RunEntry.handedTo, hhanded, hbuffered, ← List.append_assoc, ← h.whole]
        rfl
      · rw [hserved] at hin
        have hsome := (h.there hin).2 hlive
        rw [hentry] at hsome
        cases hsome

theorem Whole.streamed {projectId : String} {streams : Streams.State}
    (h : Whole client s entry) (hinv : Streams.Inv jobId s.streams entry)
    (hstep : Streams.step jobId s.streams (.streamed projectId client) = some streams) :
    ∃ entry', streams.reg.object jobId = some entry' ∧
      Whole client { s with streams } entry' := by
  rcases Streams.streamed_cases hinv hstep with
    ⟨-, rfl⟩ | ⟨hfind, hfresh, -, entry', hinv', hhanded, hsink⟩
  · exact ⟨entry, hinv.object_eq, h⟩
  · refine ⟨entry', hinv'.object_eq, ?_⟩
    rw [Streams.step, if_neg hfresh, hfind, Option.isSome_some, if_pos rfl] at hstep
    obtain rfl := Option.some.inj hstep
    have hin := (Streams.findRun_eq_some.mp hfind).2.1
    obtain ⟨found, hobj, -, hempty⟩ := object_attach client hinv.object_eq hin
    obtain rfl := Option.some.inj (hobj.symm.trans hinv'.object_eq)
    obtain ⟨found', hobj', hcarries⟩ := carries_attach client hinv.object_eq hin
    obtain rfl := Option.some.inj (hobj.symm.trans hobj')
    have hnone : entry.handedTo client = [] := by
      rw [RunEntry.handedTo, List.map_eq_nil_iff, List.filter_eq_nil_iff]
      intro call hcall heq
      exact hfresh (of_decide_eq_true heq ▸ hinv.handed_served call hcall)
    refine ⟨?_, ?_, fun _ => ⟨hempty, fun hterm => ?_⟩⟩
    · rw [RunEntry.handedTo, hhanded, handedTo_append_self, hempty, List.append_nil]
      exact h.whole
    · intro other hother
      exact (List.mem_cons.mp hother).elim id (h.only other)
    · rw [hsink, ← hcarries.terminal_eq, hterm]
      rfl

theorem whole_step (h : Inv toLowerCase jobId s)
    (hwhole : ∀ entry, s.streams.reg.object jobId = some entry → Whole client s entry)
    (hattends : Attends jobId client s e) (ht : Took toLowerCase jobId s e t) :
    ∀ entry, t.streams.reg.object jobId = some entry → Whole client t entry := by
  cases ht with
  | calls _ _ _ _ | enqueued _ | added _ _ | taken _ _ | ran _ _ | quit _ =>
      exact fun entry hentry => ⟨(hwhole entry hentry).1, (hwhole entry hentry).2,
        (hwhole entry hentry).3⟩
  | @subscribed reg userId job timerArmed hphase =>
      intro entry hentry
      have hidle := h.early (by rw [hphase]; rfl)
      have hnew : (insertEntry jobId reg job.projectId userId timerArmed).object jobId =
          some { newEntry jobId job.projectId userId with timerArmed } := store_object _ _ _
      obtain rfl := Option.some.inj (hentry.symm.trans hnew)
      exact ⟨hidle.received_eq.symm, nofun, nofun⟩
  | addFails _ => exact absurd hattends id
  | delivered htransit hstep =>
      obtain ⟨-, entry, hlive⟩ := h.live_of_not_idle fun hidle =>
        List.cons_ne_nil _ _ (htransit.symm.trans hidle.transit_eq)
      have hobj := hlive.inv.object_eq
      obtain ⟨entry', hobj', hwhole'⟩ :=
        (hwhole entry hobj).delivered hlive.inv (hattends entry hobj) hstep
      intro found hfound
      obtain rfl := Option.some.inj (hfound.symm.trans hobj')
      exact hwhole'
  | streamed hstep =>
      obtain rfl := hattends
      rcases h.stage with hidle | ⟨entry, hlive⟩
      · rw [hidle.streams hstep]
        exact hwhole
      · obtain ⟨entry', hobj', hwhole'⟩ :=
          (hwhole entry hlive.inv.object_eq).streamed hlive.inv hstep
        intro found hfound
        obtain rfl := Option.some.inj (hfound.symm.trans hobj')
        exact hwhole'
  | disconnected _ | expired _ => exact absurd hattends id

/-- A client that comes while there is room for what arrives before it, and stays alone, reads once
the run is over every frame the runner has published. -/
theorem all_received_of_attends {events : List Event}
    (h : run (step toLowerCase jobId) .init events = some s)
    (hattends : Meets (step toLowerCase jobId) (Attends jobId client) .init events)
    (hobj : s.streams.reg.object jobId = some entry) (hserved : client ∈ s.streams.served)
    (hterm : entry.terminal = true) {chunks : List (List Char)}
    (hchunks : chunks.flatten = (respond (entry.handedTo client)).body) :
    Delivery.received chunks = published s := by
  have hall := run_invariant_of_meets
    (P := fun s => Inv toLowerCase jobId s ∧
      ∀ entry, s.streams.reg.object jobId = some entry → Whole client s entry)
    (fun _ _ _ hP hok hstep =>
      ⟨inv_step hP.1 (took hstep), whole_step hP.1 hP.2 hok (took hstep)⟩)
    ⟨inv_init, fun entry hentry => absurd hentry.symm (Option.some_ne_none entry)⟩ hattends h
  have hwhole := hall.2 entry hobj
  obtain ⟨-, hframes⟩ := frames_of_run h
  have hpublished := (hframes entry hobj).2.1 hterm
  have hlive : ∃ entry, Live jobId s entry := by
    refine hall.1.stage.resolve_left fun hidle => ?_
    rw [hidle.streams_eq] at hobj
    cases hobj
  obtain ⟨found, hlive⟩ := hlive
  obtain rfl := Option.some.inj (hobj.symm.trans hlive.inv.object_eq)
  rw [respond_eq (hlive.delivers.handedLast client)] at hchunks
  calc Delivery.received chunks = entry.handedTo client := received_eq hchunks
    _ = entry.handedTo client ++ entry.buffered := by
        rw [(hwhole.there hserved).1, List.append_nil]
    _ = s.received := hwhole.whole
    _ = published s := hpublished

/-- With the sink there nothing has to wait for the client. -/
theorem attends_of_look {s : State} {terminal : Bool} {rest : List Client × List RunFrame}
    (h : look s = (some (some 0, terminal), rest)) : Attends "job-1" 0 s .delivered := by
  intro entry hobj hnone
  have hentry := congrArg Prod.fst h
  rw [look, hobj] at hentry
  have hsink : entry.sink = some 0 := congrArg Prod.fst (Option.some.inj hentry)
  rw [hnone] at hsink
  cases hsink

theorem all_received_of_attends_hello : ∃ s entry,
    run (step id "job-1") .init (hello ++ [.delivered] ++ [.delivered]) = some s ∧
    s.streams.reg.object "job-1" = some entry ∧
    Delivery.received [(respond (entry.handedTo 0)).body] = [.stdout "1\n", exitZero] := by
  obtain ⟨u, hu, hlook⟩ := hello_runs
  obtain ⟨v, hv, hlook'⟩ := hello_delivered
  obtain ⟨s, h, hlook''⟩ := hello_ends
  have hpublished : published s = [.stdout "1\n", exitZero] := congrArg (fun l => l.2.2) hlook''
  obtain ⟨entry, hobj⟩ := (frames_of_run h).1 (by rw [hpublished]; exact List.cons_ne_nil _ _)
  have hentry := congrArg Prod.fst hlook''
  rw [look, hobj] at hentry
  have hterm : entry.terminal = true := congrArg Prod.snd (Option.some.inj hentry)
  have hserved : s.streams.served = [0] := congrArg (fun l => l.2.1) hlook''
  have hstart : Meets (step id "job-1") (Attends "job-1" 0) .init hello :=
    meets_of_forall fun event hevent t => by
      simp only [hello, Worker.started, Worker.ended, List.mem_append, List.mem_map,
        List.mem_cons, List.not_mem_nil, or_false] at hevent
      rcases hevent with (rfl | rfl | rfl | rfl | rfl | rfl | rfl | rfl | rfl) | ⟨_, -, rfl⟩
      all_goals first | exact trivial | exact rfl
  have hattends : Meets (step id "job-1") (Attends "job-1" 0) .init
      (hello ++ [.delivered] ++ [.delivered]) :=
    (meets_append hv).mpr
      ⟨(meets_append hu).mpr ⟨hstart, attends_of_look hlook, fun _ _ => trivial⟩,
        attends_of_look hlook', fun _ _ => trivial⟩
  have hflat : [(respond (entry.handedTo 0)).body].flatten = (respond (entry.handedTo 0)).body := by
    rw [List.flatten_cons, List.flatten_nil, List.append_nil]
  refine ⟨s, entry, h, hobj, ?_⟩
  rw [all_received_of_attends h hattends hobj (hserved ▸ List.mem_singleton_self 0) hterm hflat]
  exact hpublished

end CollabIDE.Execution.Service
