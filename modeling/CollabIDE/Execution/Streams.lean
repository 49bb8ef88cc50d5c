import CollabIDE.Execution.Registry
/-!
# The output streams of one run

Every request for a run's stream attaches a sink of its own and detaches by the
run's id once the client has gone.  The entry has one sink, so a second stream
takes the place of the first, and whoever goes away first takes the other's.
-/

namespace CollabIDE.Execution.Streams

open CollabIDE.Lib.Machine CollabIDE.Shared.Languages CollabIDE.Execution.Wire
open CollabIDE.Execution.Registry

/-- The registry, the responses that were ever started for the run, and those whose client is still
connected. -/
structure State where
  reg : RunRegistry
  served : List Client
  streams : List Client

inductive Event
  /-- A client opens the run's stream in a project. -/
  | streamed (projectId : String) (client : Client)
  | received (payload : Payload)
  /-- The `close` event of a client's request. -/
  | disconnected (client : Client)
  /-- The entry's TTL. -/
  | expired

/-- What the route finds under the job id: a run of another project is no run. -/
def findRun (reg : RunRegistry) (jobId projectId : String) : Option RunEntry :=
  (reg.object jobId).filter fun entry => jobId ∈ reg.entries ∧ entry.projectId = projectId

/-- `streamRun` attaches synchronously after the lookup; without a run the answer is 404. -/
def step (jobId : String) (s : State) : Event → Option State
  | .streamed projectId client =>
    if client ∈ s.served then none
    else if (findRun s.reg jobId projectId).isSome then
      some ⟨(attach s.reg jobId client).1, client :: s.served, client :: s.streams⟩
    else some s
  | .received payload =>
    (Registry.step s.reg (.message jobId payload)).map fun reg => { s with reg }
  | .disconnected client =>
    if client ∈ s.streams then
      some { s with reg := detach s.reg jobId, streams := s.streams.filter (· ≠ client) }
    else none
  | .expired =>
    if ((s.reg.object jobId).map RunEntry.timerArmed).getD false then
      some { s with reg := close s.reg jobId }
    else none

/-- The run's sink, as long as it is registered. -/
def sinkOf (jobId : String) (s : State) : Option Client :=
  (s.reg.object jobId).bind fun entry => if jobId ∈ s.reg.entries then entry.sink else none

def SentExit (entry : RunEntry) (client : Client) : Prop :=
  ∃ frame ∈ entry.handedTo client, frame.isExit = true

/-- Every open stream has been sent an exit frame or is the run's sink. -/
def Accounted (jobId : String) (s : State) : Prop :=
  ∀ client ∈ s.streams, (∃ entry, s.reg.object jobId = some entry ∧ SentExit entry client) ∨
    sinkOf jobId s = some client

/-- The sink that would be lost is nobody's: a stream opens only when there is none, and not on a
finished run whose exit frame was not kept; only the sink's own client goes away; the TTL finds no
sink. -/
def Spares (jobId : String) (s : State) : Event → Prop
  | .streamed projectId _ => ∀ entry, findRun s.reg jobId projectId = some entry →
      entry.sink = none ∧
        (entry.terminal = true → ∃ frame ∈ entry.buffered, frame.isExit = true)
  | .received _ => True
  | .disconnected client => ∀ other, sinkOf jobId s = some other → other = client
  | .expired => sinkOf jobId s = none

instance (jobId : String) (s : State) : ∀ e, Decidable (Spares jobId s e)
  | .streamed projectId _ =>
    inferInstanceAs (Decidable (∀ entry ∈ findRun s.reg jobId projectId, entry.sink = none ∧
      (entry.terminal = true → ∃ frame ∈ entry.buffered, frame.isExit = true)))
  | .received _ => inferInstanceAs (Decidable True)
  | .disconnected client => inferInstanceAs (Decidable (∀ other ∈ sinkOf jobId s, other = client))
  | .expired => inferInstanceAs (Decidable (sinkOf jobId s = none))

/-! ## What the operations leave of the entry -/

variable {jobId : String} {reg : RunRegistry} {entry : RunEntry} {s t : State}

theorem sentExit_iff {client : Client} :
    SentExit entry client ↔ ∃ call ∈ entry.handed, call.1 = client ∧ call.2.isExit = true := by
  simp only [SentExit, RunEntry.handedTo, List.mem_map, List.mem_filter, decide_eq_true_eq]
  constructor
  · rintro ⟨_, ⟨call, ⟨hcall, hclient⟩, rfl⟩, hexit⟩
    exact ⟨call, hcall, hclient, hexit⟩
  · rintro ⟨call, hcall, hclient, hexit⟩
    exact ⟨_, ⟨call, ⟨hcall, hclient⟩, rfl⟩, hexit⟩

theorem SentExit.mono {entry' : RunEntry} {client : Client}
    (h : ∃ calls, entry'.handed = entry.handed ++ calls) (hsent : SentExit entry client) :
    SentExit entry' client := by
  obtain ⟨calls, hcalls⟩ := h
  obtain ⟨call, hcall, hrest⟩ := sentExit_iff.mp hsent
  exact sentExit_iff.mpr ⟨call, hcalls ▸ List.mem_append_left calls hcall, hrest⟩

/-- What holds of the run in every state, whoever attaches and leaves. -/
structure Inv (jobId : String) (s : State) (entry : RunEntry) : Prop where
  object_eq : s.reg.object jobId = some entry
  handed_served : ∀ call ∈ entry.handed, call.1 ∈ s.served
  streams_served : ∀ client ∈ s.streams, client ∈ s.served
  /-- Nobody is sent an exit frame, and none is kept, before the run is over. -/
  no_exit : entry.terminal = false →
    (∀ call ∈ entry.handed, call.2.isExit = false) ∧ ∀ frame ∈ entry.buffered, frame.isExit = false
  sink_live : ∀ client, entry.sink = some client →
    jobId ∈ s.reg.entries ∧ client ∈ s.streams ∧ entry.terminal = false
  open_live : entry.subscriberOpen = true → jobId ∈ s.reg.entries ∧ entry.terminal = false

theorem Inv.sink_eq_none (h : Inv jobId s entry) (hin : jobId ∉ s.reg.entries) :
    entry.sink = none :=
  Option.eq_none_iff_forall_ne_some.mpr fun client hsink => hin (h.sink_live client hsink).1

theorem Inv.sinkOf_eq (h : Inv jobId s entry) : sinkOf jobId s = entry.sink := by
  simp only [sinkOf, h.object_eq, Option.bind_some]
  split_ifs with hin
  · rfl
  · exact (h.sink_eq_none hin).symm

theorem Inv.accounted_iff (h : Inv jobId s entry) :
    Accounted jobId s ↔
      ∀ client ∈ s.streams, SentExit entry client ∨ entry.sink = some client := by
  simp only [Accounted, h.object_eq, h.sinkOf_eq, Option.some.injEq, exists_eq_left']

theorem Inv.not_sentExit (h : Inv jobId s entry) (hterm : entry.terminal = false)
    (client : Client) : ¬ SentExit entry client := by
  rw [sentExit_iff]
  rintro ⟨call, hcall, -, hexit⟩
  rw [(h.no_exit hterm).1 call hcall] at hexit
  cases hexit

theorem inv_opened {reg reg' : RunRegistry} {projectId userId : String}
    (h : Registry.step reg (.opened jobId projectId userId) = some reg') :
    Inv jobId ⟨reg', [], []⟩ (newEntry jobId projectId userId) := by
  obtain ⟨hobj, hin⟩ := opened_eq_some h
  refine ⟨hobj, ?_, ?_, ?_, ?_, fun _ => ⟨hin, rfl⟩⟩ <;> simp [newEntry]

theorem findRun_eq_some {projectId : String} {found : RunEntry} :
    findRun reg jobId projectId = some found ↔
      reg.object jobId = some found ∧ jobId ∈ reg.entries ∧ found.projectId = projectId := by
  simp only [findRun, Option.filter_eq_some_iff, decide_eq_true_eq]

theorem streamed_cases {projectId : String} {client : Client} (hinv : Inv jobId s entry)
    (h : step jobId s (.streamed projectId client) = some t) :
    (findRun s.reg jobId projectId = none ∧ t = s) ∨
      findRun s.reg jobId projectId = some entry ∧ client ∉ s.served ∧
        t.streams = client :: s.streams ∧ ∃ entry', Inv jobId t entry' ∧
          entry'.handed = entry.handed ++ entry.buffered.map (client, ·) ∧
          entry'.sink = if entry.terminal then none else some client := by
  simp only [step, Option.ite_none_left_eq_some] at h
  obtain ⟨hfresh, h⟩ := h
  cases hfind : findRun s.reg jobId projectId with
  | none =>
      simp only [hfind, Option.isSome_none, Bool.false_eq_true, if_false, Option.some.injEq] at h
      exact .inl ⟨rfl, h.symm⟩
  | some found =>
      obtain ⟨hobj, hin, -⟩ := findRun_eq_some.mp hfind
      obtain rfl : found = entry := Option.some.inj (hobj.symm.trans hinv.object_eq)
      simp only [hfind, Option.isSome_some, if_true, Option.some.injEq] at h
      subst h
      refine .inr ⟨rfl, hfresh, rfl, ?_⟩
      have hserved : ∀ call ∈ found.handed ++ found.buffered.map (client, ·),
          call.1 ∈ client :: s.served := by
        intro call hcall
        rcases List.mem_append.mp hcall with hcall | hcall
        · exact List.mem_cons_of_mem _ (hinv.handed_served call hcall)
        · obtain ⟨frame, -, rfl⟩ := List.mem_map.mp hcall
          exact List.mem_cons_self
      have hstreams : ∀ c ∈ client :: s.streams, c ∈ client :: s.served := fun c hc =>
        List.mem_cons.mpr ((List.mem_cons.mp hc).imp_right (hinv.streams_served c))
      cases hterm : found.terminal with
      | false =>
          rw [attach_live client hobj hin hterm]
          refine ⟨_, ⟨store_object _ _ _, hserved, hstreams, fun _ => ⟨?_, by simp⟩, ?_,
            fun hopen => ⟨hin, (hinv.open_live hopen).2⟩⟩, rfl, rfl⟩
          · intro call hcall
            rcases List.mem_append.mp hcall with hcall | hcall
            · exact (hinv.no_exit hterm).1 call hcall
            · obtain ⟨frame, hframe, rfl⟩ := List.mem_map.mp hcall
              exact (hinv.no_exit hterm).2 frame hframe
          · intro c hc
            cases hc
            exact ⟨hin, List.mem_cons_self, hterm⟩
      | true =>
          rw [attach_over client hobj hin hterm]
          refine ⟨_, ⟨store_object _ _ _, hserved, hstreams, fun hf => ?_, fun c hc => ?_,
            fun hopen => ?_⟩, rfl, rfl⟩
          · exact absurd (hterm.symm.trans hf) (by decide)
          · cases hc
          · exact absurd (hterm.symm.trans (hinv.open_live hopen).2) (by decide)

theorem Inv.store_output {entry' : RunEntry} (h : Inv jobId s entry)
    (hterm' : entry'.terminal = false) (hsink : entry'.sink = entry.sink)
    (hopen : entry'.subscriberOpen = entry.subscriberOpen)
    (hserved : ∀ call ∈ entry'.handed, call.1 ∈ s.served)
    (hexit : (∀ call ∈ entry'.handed, call.2.isExit = false) ∧
      ∀ frame ∈ entry'.buffered, frame.isExit = false) :
    Inv jobId { s with reg := s.reg.store jobId entry' } entry' :=
  ⟨store_object _ _ _, hserved, h.streams_served, fun _ => hexit,
    fun c hc => ⟨(h.sink_live c (hsink ▸ hc)).1, (h.sink_live c (hsink ▸ hc)).2.1, hterm'⟩,
    fun hopen' => ⟨(h.open_live (hopen ▸ hopen')).1, hterm'⟩⟩

theorem Inv.over {reg' : RunRegistry} {entry' : RunEntry} (h : Inv jobId s entry)
    (hobj : reg'.object jobId = some entry') (hterm' : entry'.terminal = true)
    (hsink : entry'.sink = none) (hclosed : entry'.subscriberOpen = false)
    (hserved : ∀ call ∈ entry'.handed, call.1 ∈ s.served) :
    Inv jobId { s with reg := reg' } entry' where
  object_eq := hobj
  handed_served := hserved
  streams_served := h.streams_served
  no_exit hf := by
    rw [hterm'] at hf
    cases hf
  sink_live c hc := by
    rw [hsink] at hc
    cases hc
  open_live hopen := by
    rw [hclosed] at hopen
    cases hopen

theorem received_unwatched (hinv : Inv jobId s entry)
    (hterm : entry.terminal = false) (hsink : entry.sink = none) (frame : RunFrame) :
    ∃ entry', Inv jobId { s with reg := receive s.reg entry jobId (.encoded frame) } entry' ∧
      (∃ calls, entry'.handed = entry.handed ++ calls) ∧
      ∀ client, none = some client → SentExit entry' client ∨ entry'.sink = some client := by
  obtain ⟨hcalls, hbuffered⟩ := hinv.no_exit hterm
  obtain ⟨buffered, bytes, hkeep, hnew⟩ : ∃ buffered bytes,
      sinkOrBuffer entry frame (.encoded frame) =
          { entry with sink := none, buffered := buffered, bufferedBytes := bytes } ∧
        ∀ f ∈ buffered, f ∈ entry.buffered ∨ f = frame := by
    simp only [sinkOrBuffer, hsink]
    split_ifs
    · exact ⟨_, _, rfl, fun f hf => by simpa using hf⟩
    · exact ⟨entry.buffered, entry.bufferedBytes, by rw [← hsink], fun f hf => .inl hf⟩
  cases hexit : frame.isExit with
  | true =>
      simp only [receive, Payload.parse, hkeep, hexit, if_true, releaseSubscriber,
        Option.isSome_none, Bool.false_eq_true, if_false]
      exact ⟨_, hinv.over (store_object _ _ _) rfl rfl rfl hinv.handed_served, ⟨[], by simp⟩,
        fun c hc => by cases hc⟩
  | false =>
      rw [receive_output _ _ hexit, hkeep]
      refine ⟨_, hinv.store_output hterm hsink.symm rfl hinv.handed_served
        ⟨hcalls, fun f hf => ?_⟩, ⟨[], by simp⟩, ?_⟩
      · rcases hnew f hf with hold | rfl
        · exact hbuffered f hold
        · exact hexit
      · exact fun c hc => by cases hc

theorem received_cases {payload : Payload} (hinv : Inv jobId s entry)
    (h : step jobId s (.received payload) = some t) :
    t.streams = s.streams ∧ ∃ entry', Inv jobId t entry' ∧
      (∃ calls, entry'.handed = entry.handed ++ calls) ∧
      ∀ client, entry.sink = some client → SentExit entry' client ∨ entry'.sink = some client := by
  obtain ⟨reg', hmsg, rfl⟩ := Option.map_eq_some_iff.mp h
  simp only [Registry.step, hinv.object_eq, Option.ite_none_left_eq_some, Bool.not_eq_true,
    Option.some.injEq] at hmsg
  obtain ⟨hterm, rfl⟩ := hmsg
  obtain ⟨hcalls, hbuffered⟩ := hinv.no_exit hterm
  refine ⟨rfl, ?_⟩
  cases payload with
  | unparseable text => exact ⟨entry, hinv, ⟨[], by simp⟩, fun _ hc => .inr hc⟩
  | encoded frame =>
      cases hsink : entry.sink with
      | none => exact received_unwatched hinv hterm hsink frame
      | some client =>
          have hin := (hinv.sink_live client hsink).1
          have hserved : ∀ call ∈ entry.handed ++ [(client, frame)], call.1 ∈ s.served := by
            intro call hcall
            rcases List.mem_append.mp hcall with hcall | hcall
            · exact hinv.handed_served call hcall
            · rw [List.mem_singleton.mp hcall]
              exact hinv.streams_served _ (hinv.sink_live client hsink).2.1
          cases hexit : frame.isExit with
          | true =>
              rw [receive_exit_sink hin hsink hexit]
              refine ⟨_, hinv.over (store_object _ _ _) rfl rfl rfl hserved, ⟨_, rfl⟩, ?_⟩
              rintro c ⟨⟩
              exact .inl (sentExit_iff.mpr ⟨(client, frame), by simp, rfl, hexit⟩)
          | false =>
              rw [receive_output _ _ hexit]
              have hkeep : sinkOrBuffer entry frame (.encoded frame) = entry.hand client frame := by
                simp only [sinkOrBuffer, hsink]
              rw [hkeep]
              refine ⟨_, hinv.store_output hterm rfl rfl hserved ⟨?_, hbuffered⟩, ⟨_, rfl⟩,
                fun c hc => .inr (hsink.trans hc)⟩
              intro call hcall
              rcases List.mem_append.mp hcall with hcall | hcall
              · exact hcalls call hcall
              · rw [List.mem_singleton.mp hcall]
                exact hexit

theorem disconnected_cases {client : Client} (hinv : Inv jobId s entry)
    (h : step jobId s (.disconnected client) = some t) :
    client ∈ s.streams ∧ t.streams = s.streams.filter (· ≠ client) ∧ ∃ entry', Inv jobId t entry' ∧
      entry'.handed = entry.handed ∧ entry'.sink = none := by
  simp only [step, Option.ite_none_right_eq_some, Option.some.injEq] at h
  obtain ⟨hclient, rfl⟩ := h
  refine ⟨hclient, rfl, ?_⟩
  have hstreams : ∀ c ∈ s.streams.filter (· ≠ client), c ∈ s.served := fun c hc =>
    hinv.streams_served c (List.mem_of_mem_filter hc)
  by_cases hin : jobId ∈ s.reg.entries
  · simp only [detach, hinv.object_eq, if_pos hin]
    refine ⟨_, ⟨store_object _ _ _, hinv.handed_served, hstreams, hinv.no_exit, ?_,
      hinv.open_live⟩, rfl, rfl⟩
    exact fun c hc => by cases hc
  · simp only [detach, hinv.object_eq, if_neg hin]
    have hsink : entry.sink = none := hinv.sink_eq_none hin
    refine ⟨entry, ⟨hinv.object_eq, hinv.handed_served, hstreams, hinv.no_exit, ?_,
      hinv.open_live⟩, rfl, hsink⟩
    intro c hc
    rw [hsink] at hc
    cases hc

theorem expired_cases (hinv : Inv jobId s entry) (h : step jobId s .expired = some t) :
    t.streams = s.streams ∧ ∃ entry', Inv jobId t entry' ∧
      entry'.handed = entry.handed ∧ entry'.sink = none := by
  simp only [step, Option.ite_none_right_eq_some, Option.some.injEq] at h
  obtain ⟨-, rfl⟩ := h
  refine ⟨rfl, ?_⟩
  by_cases hin : jobId ∈ s.reg.entries
  · rw [close_eq hinv.object_eq hin]
    refine ⟨_, ⟨store_object _ _ _, hinv.handed_served, hinv.streams_served, hinv.no_exit, ?_, ?_⟩,
      rfl, rfl⟩
    · exact fun c hc => by cases hc
    · exact fun hopen => by cases hopen
  · rw [close, if_neg hin]
    exact ⟨entry, hinv, rfl, hinv.sink_eq_none hin⟩

/-! ## Which steps keep every stream accounted for -/

theorem SentExit.of_handed_eq {entry' : RunEntry} {client : Client}
    (h : entry'.handed = entry.handed) : SentExit entry' client ↔ SentExit entry client := by
  rw [sentExit_iff, sentExit_iff, h]

theorem accounted_streamed {projectId : String} {client : Client} (hinv : Inv jobId s entry)
    (hacc : Accounted jobId s) (h : step jobId s (.streamed projectId client) = some t) :
    Accounted jobId t ↔ Spares jobId s (.streamed projectId client) := by
  rcases streamed_cases hinv h with ⟨hnone, rfl⟩ | ⟨hfind, hfresh, hstreams, entry', hinv',
    hhanded, hsink'⟩
  · refine iff_of_true hacc fun found hfound => ?_
    rw [hnone] at hfound
    cases hfound
  have hmine : ∀ frame ∈ entry.buffered, frame.isExit = true → SentExit entry' client :=
    fun frame hframe hexit => sentExit_iff.mpr
      ⟨(client, frame), hhanded ▸ List.mem_append_right _ (List.mem_map_of_mem hframe), rfl, hexit⟩
  have hsent : ∀ c, SentExit entry' c →
      SentExit entry c ∨ ∃ frame ∈ entry.buffered, frame.isExit = true := by
    intro c hc
    obtain ⟨call, hcall, hclient, hexit⟩ := sentExit_iff.mp hc
    rw [hhanded, List.mem_append] at hcall
    rcases hcall with hcall | hcall
    · exact .inl (sentExit_iff.mpr ⟨call, hcall, hclient, hexit⟩)
    · obtain ⟨frame, hframe, rfl⟩ := List.mem_map.mp hcall
      exact .inr ⟨frame, hframe, hexit⟩
  rw [hinv'.accounted_iff, hstreams, List.forall_mem_cons]
  rw [hinv.accounted_iff] at hacc
  simp only [Spares, hfind, Option.some.injEq, forall_eq']
  constructor
  · rintro ⟨hclient, hothers⟩
    refine ⟨Option.eq_none_iff_forall_ne_some.mpr fun other hother => ?_, fun hterm => ?_⟩
    · -- the old sink is open, got no exit frame and is not the sink any more
      obtain ⟨-, hopen, hterm⟩ := hinv.sink_live other hother
      rw [hterm] at hsink'
      rcases hothers other hopen with hexit | heq
      · rcases hsent other hexit with hold | ⟨frame, hframe, hbuffered⟩
        · exact hinv.not_sentExit hterm other hold
        · rw [(hinv.no_exit hterm).2 frame hframe] at hbuffered
          cases hbuffered
      · rw [hsink'] at heq
        cases heq
        exact hfresh (hinv.streams_served _ hopen)
    · rw [hterm] at hsink'
      rcases hclient with hexit | heq
      · refine (hsent client hexit).resolve_left fun hold => ?_
        obtain ⟨call, hcall, rfl, -⟩ := sentExit_iff.mp hold
        exact hfresh (hinv.handed_served call hcall)
      · rw [hsink'] at heq
        cases heq
  · rintro ⟨hnone, hkept⟩
    refine ⟨?_, fun c hc => ?_⟩
    · cases hterm : entry.terminal with
      | true =>
          obtain ⟨frame, hframe, hexit⟩ := hkept hterm
          exact .inl (hmine frame hframe hexit)
      | false =>
          rw [hterm] at hsink'
          exact .inr hsink'
    · rcases hacc c hc with hexit | heq
      · exact .inl (hexit.mono ⟨_, hhanded⟩)
      · rw [hnone] at heq
        cases heq

/-- Once the sink is gone, the streams left are those of clients that got their exit frame. -/
theorem accounted_of_no_sink {entry' : RunEntry} (hinv : Inv jobId s entry)
    (hinv' : Inv jobId t entry') (hacc : Accounted jobId s) (hsub : t.streams ⊆ s.streams)
    (hhanded : entry'.handed = entry.handed) (hsink' : entry'.sink = none) :
    Accounted jobId t ↔ ∀ other, sinkOf jobId s = some other → other ∉ t.streams := by
  rw [hinv'.accounted_iff, hinv.sinkOf_eq]
  rw [hinv.accounted_iff] at hacc
  constructor
  · intro hall other hother hopen
    obtain ⟨-, -, hterm⟩ := hinv.sink_live other hother
    rcases hall other hopen with hexit | heq
    · exact hinv.not_sentExit hterm other ((SentExit.of_handed_eq hhanded).mp hexit)
    · rw [hsink'] at heq
      cases heq
  · intro hgone c hc
    rcases hacc c (hsub hc) with hexit | heq
    · exact .inl ((SentExit.of_handed_eq hhanded).mpr hexit)
    · exact absurd hc (hgone c heq)

theorem accounted_step {e : Event} (hinv : Inv jobId s entry) (hacc : Accounted jobId s)
    (h : step jobId s e = some t) : Accounted jobId t ↔ Spares jobId s e := by
  cases e with
  | streamed projectId client => exact accounted_streamed hinv hacc h
  | received payload =>
      obtain ⟨hstreams, entry', hinv', hcalls, hsink⟩ := received_cases hinv h
      refine iff_of_true (hinv'.accounted_iff.mpr fun c hc => ?_) trivial
      rcases hinv.accounted_iff.mp hacc c (hstreams ▸ hc) with hexit | heq
      · exact .inl (hexit.mono hcalls)
      · exact hsink c heq
  | disconnected client =>
      obtain ⟨hclient, hstreams, entry', hinv', hhanded, hsink⟩ := disconnected_cases hinv h
      rw [accounted_of_no_sink hinv hinv' hacc (hstreams ▸ List.filter_subset_self _) hhanded hsink]
      refine forall₂_congr fun other hother => ?_
      have hopen := (hinv.sink_live other (hinv.sinkOf_eq ▸ hother)).2.1
      simp [hstreams, hopen]
  | expired =>
      obtain ⟨hstreams, entry', hinv', hhanded, hsink⟩ := expired_cases hinv h
      rw [accounted_of_no_sink hinv hinv' hacc (hstreams ▸ List.Subset.refl _) hhanded hsink,
        Spares, Option.eq_none_iff_forall_ne_some]
      refine forall₂_congr fun other hother => ?_
      exact iff_false_intro fun hgone =>
        hgone (hstreams ▸ (hinv.sink_live other (hinv.sinkOf_eq ▸ hother)).2.1)

theorem inv_step {e : Event} (hinv : Inv jobId s entry) (h : step jobId s e = some t) :
    ∃ entry', Inv jobId t entry' := by
  cases e with
  | streamed projectId client =>
      rcases streamed_cases hinv h with ⟨-, rfl⟩ | ⟨-, -, -, entry', hinv', -⟩
      · exact ⟨entry, hinv⟩
      · exact ⟨entry', hinv'⟩
  | received payload =>
      obtain ⟨-, entry', hinv', -⟩ := received_cases hinv h
      exact ⟨entry', hinv'⟩
  | disconnected client =>
      obtain ⟨-, -, entry', hinv', -⟩ := disconnected_cases hinv h
      exact ⟨entry', hinv'⟩
  | expired =>
      obtain ⟨-, entry', hinv', -⟩ := expired_cases hinv h
      exact ⟨entry', hinv'⟩

/-- In every state of a run every open stream is accounted for, and nobody's disconnect takes the
sink of another. -/
def NeverOrphaned (jobId : String) (s : State) (events : List Event) : Prop :=
  ∀ pre t, pre <+: events → run (step jobId) s pre = some t → Accounted jobId t ∧
    ∀ client u, pre ++ [.disconnected client] <+: events →
      step jobId t (.disconnected client) = some u →
      ∀ other, other ≠ client → sinkOf jobId t = some other → sinkOf jobId u = some other

theorem never_orphaned_iff {reg reg' : RunRegistry} {projectId userId : String}
    {events : List Event} {u : State}
    (hopened : Registry.step reg (.opened jobId projectId userId) = some reg')
    (hrun : run (step jobId) ⟨reg', [], []⟩ events = some u) :
    NeverOrphaned jobId ⟨reg', [], []⟩ events ↔
      Meets (step jobId) (Spares jobId) ⟨reg', [], []⟩ events := by
  have hstart : (∃ entry, Inv jobId ⟨reg', [], []⟩ entry) ∧ Accounted jobId ⟨reg', [], []⟩ :=
    ⟨⟨_, inv_opened hopened⟩, fun _ hc => by cases hc⟩
  have hiff := forall_prefix_iff_meets
    (P := fun s => (∃ entry, Inv jobId s entry) ∧ Accounted jobId s)
    (fun s e t hs h => by
      obtain ⟨⟨entry, hinv⟩, hacc⟩ := hs
      rw [and_iff_right (inv_step hinv h), accounted_step hinv hacc h]) hstart hrun
  have hinvs : ∀ pre t, run (step jobId) ⟨reg', [], []⟩ pre = some t →
      ∃ entry, Inv jobId t entry := fun pre t ht =>
    run_invariant (P := fun s => ∃ entry, Inv jobId s entry)
      (fun s e t hs h => hs.elim fun _ hinv => inv_step hinv h) hstart.1 ht
  constructor
  · exact fun h => hiff.mp fun pre t hpre ht => ⟨hinvs pre t ht, (h pre t hpre ht).1⟩
  · intro hmeets pre t hpre ht
    refine ⟨(hiff.mpr hmeets pre t hpre ht).2, ?_⟩
    rintro client u ⟨post, rfl⟩ hu other hne hother
    rw [List.append_assoc, List.singleton_append] at hmeets
    have hspares := ((meets_cons hu).mp ((meets_append ht).mp hmeets).2).1
    exact absurd (hspares other hother) hne

/-- A registry with one run that has just been opened. -/
def oneRun : RunRegistry :=
  (RunRegistry.empty.store "job-1" (newEntry "job-1" "project-1" "user-1")).set "job-1"

theorem opened_oneRun :
    Registry.step .empty (.opened "job-1" "project-1" "user-1") = some oneRun := rfl

/-- A client goes away, comes back after a frame it missed, and watches the run to its end. -/
def returned : List Event :=
  [.streamed "project-1" 0, .received (.encoded (.stdout "hi")), .disconnected 0,
    .received (.encoded (.stdout "lo")), .streamed "project-1" 1, .received (.encoded exitZero),
    .disconnected 1]

theorem never_orphaned_iff_returned :
    ∃ u entry, run (step "job-1") ⟨oneRun, [], []⟩ returned = some u ∧
      u.reg.object "job-1" = some entry ∧ entry.handedTo 1 = [.stdout "lo", exitZero] ∧
      NeverOrphaned "job-1" ⟨oneRun, [], []⟩ returned := by
  have hrun : (run (step "job-1") ⟨oneRun, [], []⟩ returned).bind (fun u =>
      (u.reg.object "job-1").map fun entry => entry.handedTo 1) =
        some [.stdout "lo", exitZero] := by decide +kernel
  obtain ⟨u, hu, hobject⟩ := Option.bind_eq_some_iff.mp hrun
  obtain ⟨entry, hentry, hhanded⟩ := Option.map_eq_some_iff.mp hobject
  exact ⟨u, entry, hu, hentry, hhanded,
    (never_orphaned_iff opened_oneRun hu).mpr (by decide +kernel)⟩

/-- The client comes back on a new stream before the server sees the old one close. -/
def reconnected : List Event :=
  [.streamed "project-1" 0, .streamed "project-1" 1, .disconnected 0]

/-- The close of the old stream takes the sink of the new one, which is left open for good. -/
theorem reconnected_client_is_orphaned :
    ∃ u, run (step "job-1") ⟨oneRun, [], []⟩ reconnected = some u ∧
      u.streams = [1] ∧ ¬ Accounted "job-1" u := by
  refine ⟨_, rfl, rfl, fun hacc => ?_⟩
  rcases hacc 1 (List.mem_singleton_self 1) with ⟨entry, hentry, frame, hframe, -⟩ | hsink
  · cases hentry
    cases hframe
  · cases hsink

end CollabIDE.Execution.Streams
