import CollabIDE.Terminal.UseRun
/-!
# The stream of a run

At any time at most one stream is open, and the terminal is told its frames in
order and then one closing line.  A stream belongs to the page that is shown
unless the page was left, or moved on, between a click and the answer to it; of
a page that was left only the stream's own end closes it.  Moving on while a
stream is open leaves the run busy for good.
-/

namespace CollabIDE.Terminal.UseRun

open CollabIDE.Lib.Machine CollabIDE.Shared.Languages

variable {toFixed : Int → String} {s t : State} {ev : Event} {i j : Nat}

/-! ## What the terminal is told -/

/-- What the terminal is told of a frame. -/
def outputOf : RunFrame → Option Output
  | .stdout data => some (.write data false)
  | .stderr data => some (.write data true)
  | .exit .. => none

/-- The summary of an exit frame. -/
def summaryOf : RunFrame → Option RunSummary
  | .exit status exitCode durationMs truncated _ => some ⟨status, exitCode, durationMs, truncated⟩
  | .stdout _ | .stderr _ => none

theorem summaryOf_eq_none {frame : RunFrame} : summaryOf frame = none ↔ frame.isExit = false := by
  cases frame <;> simp [summaryOf, RunFrame.isExit]

/-- The frames in order, then a closing line: the summary of the exit frame, which is the last
one, or why there is none. -/
structure Tells (toFixed : Int → String) (s : State) : Prop where
  quiet : s.state = .idle ∨ s.state = .starting → s.heard = [] ∧ s.output = []
  running : s.state = .running → s.summary = none ∧ (∀ frame ∈ s.heard, frame.isExit = false) ∧
    s.output = s.heard.filterMap outputOf
  finished : s.state = .finished → ∃ frames text, (∀ frame ∈ frames, frame.isExit = false) ∧
    s.output = frames.filterMap outputOf ++ [.line text] ∧
    ((s.summary = none ∧ s.heard = frames) ∨ ∃ exit result, summaryOf exit = some result ∧
      s.summary = some result ∧ s.heard = frames ++ [exit] ∧ text = summaryLine toFixed result)

/-! ## The stream -/

/-- What holds all along. -/
structure Inv (toFixed : Int → String) (s : State) : Prop where
  ref : ∀ j, isOpen s j = true ↔ s.sourceRef = some j
  streaming : ∀ j, s.sourceRef = some j → s.state = .running
  waiting : ∀ i call, s.calls[i]? = some call → call.answered = false →
    s.state = .starting ∧ i + 1 = s.calls.length
  starting : s.state = .starting → ∃ call ∈ s.calls, call.answered = false
  summary : s.state = .starting → s.summary = none
  rendered : s.state.isBusy = true → s.rendered.isBusy = true
  tells : Tells toFixed s

theorem isOpen_eq_true : isOpen s j = true ↔ ∃ source, s.sources[j]? = some source ∧
    source.closed = false := by
  unfold isOpen
  cases s.sources[j]? <;> simp

theorem isOpen_closeStream (h : ∀ j, isOpen s j = true ↔ s.sourceRef = some j) (j : Nat) :
    isOpen (closeStream s) j = false := by
  by_contra hopen
  obtain ⟨source, hsource, hlive⟩ := isOpen_eq_true.mp (eq_true_of_ne_false hopen)
  unfold closeStream at hsource
  cases href : s.sourceRef with
  | none =>
      rw [href] at hsource
      have hthis := (h j).mp (isOpen_eq_true.mpr ⟨source, hsource, hlive⟩)
      rw [href] at hthis
      cases hthis
  | some k =>
      rw [href] at hsource
      change (s.sources.modify k close)[j]? = some source at hsource
      rw [List.getElem?_modify] at hsource
      obtain ⟨old, hold, rfl⟩ := Option.map_eq_some_iff.mp hsource
      by_cases hkj : k = j
      · rw [if_pos hkj] at hlive
        cases hlive
      · rw [if_neg hkj] at hlive
        have hthis := (h j).mp (isOpen_eq_true.mpr ⟨old, hold, hlive⟩)
        rw [href] at hthis
        exact hkj (Option.some.inj hthis)

theorem ref_closeStream (h : ∀ j, isOpen s j = true ↔ s.sourceRef = some j) (j : Nat) :
    isOpen (closeStream s) j = true ↔ (closeStream s).sourceRef = some j := by
  rw [isOpen_closeStream h]
  exact iff_of_false Bool.false_ne_true (Option.some_ne_none j).symm

theorem Inv.not_waiting (h : Inv toFixed s) (hstate : s.state ≠ .starting) :
    ∀ call ∈ s.calls, call.answered = true := by
  intro call hcall
  by_contra hnot
  obtain ⟨i, hi⟩ := List.getElem?_of_mem hcall
  exact hstate (h.waiting i call hi (eq_false_of_ne_true hnot)).1

theorem Inv.closed (h : Inv toFixed s) (hcalls : t.calls = s.calls)
    (hsources : t.sources = (closeStream s).sources) (href : t.sourceRef = none)
    (hstate : t.state = .finished) (hwas : s.state = .running) (htells : Tells toFixed t) :
    Inv toFixed t where
  ref j := by
    rw [href, isOpen, hsources]
    have hclosed := isOpen_closeStream h.ref j
    rw [isOpen] at hclosed
    rw [hclosed]
    exact iff_of_false Bool.false_ne_true (Option.some_ne_none j).symm
  streaming j hj := by
    rw [href] at hj
    cases hj
  waiting i call hi hwaiting := by
    rw [hcalls] at hi
    have hrunning := (h.waiting i call hi hwaiting).1
    rw [hwas] at hrunning
    cases hrunning
  starting hstarting := by
    rw [hstate] at hstarting
    cases hstarting
  summary hstarting := by
    rw [hstate] at hstarting
    cases hstarting
  rendered hbusy := by
    rw [hstate] at hbusy
    cases hbusy
  tells := htells

theorem Inv.init (projectId : String) : Inv toFixed (init projectId) where
  ref j := iff_of_false Bool.false_ne_true (Option.some_ne_none j).symm
  streaming j hj := absurd hj (Option.some_ne_none j).symm
  waiting i call hi := absurd hi (Option.some_ne_none call).symm
  starting hstarting := by cases hstarting
  summary hstarting := by cases hstarting
  rendered hbusy := by cases hbusy
  tells := ⟨fun _ => ⟨rfl, rfl⟩, fun hrunning => (by cases hrunning), fun hend => by cases hend⟩

theorem Inv.start (h : Inv toFixed s) (entrypoint : String) :
    Inv toFixed (start entrypoint s) := by
  unfold UseRun.start
  split
  · exact h
  · next hidle =>
      have hnot : s.state.isBusy ≠ true := fun hbusy => hidle (h.rendered hbusy)
      have hanswered : ∀ call ∈ s.calls, call.answered = true := by
        refine h.not_waiting fun heq => hnot ?_
        rw [heq]
        rfl
      refine ⟨fun j => ref_closeStream h.ref j, fun j hj => ?_, fun i call hi hwaiting => ⟨rfl, ?_⟩,
        fun _ => ⟨_, List.mem_append_right _ List.mem_cons_self, rfl⟩, fun _ => rfl, fun _ => rfl,
        fun _ => ⟨rfl, rfl⟩, fun hrunning => (by cases hrunning), fun hend => by cases hend⟩
      · exact absurd hj (Option.some_ne_none j).symm
      · change (s.calls ++ [_])[i]? = some call at hi
        change i + 1 = (s.calls ++ [_]).length
        rw [List.length_append, List.length_singleton]
        rcases Nat.lt_or_ge i s.calls.length with hlt | hge
        · rw [List.getElem?_append_left hlt] at hi
          rw [hanswered call (List.mem_of_getElem? hi)] at hwaiting
          cases hwaiting
        · have hbound := (List.getElem?_eq_some_iff.mp hi).1
          rw [List.length_append, List.length_singleton] at hbound
          omega

/-- The call that is answered is the only one that waits. -/
theorem answer_cases {reply : Except Failure String} (h : Inv toFixed s)
    (hstep : answer i reply s = some t) : ∃ call, s.calls[i]? = some call ∧
      s.state = .starting ∧ s.sourceRef = none ∧
      (∀ other ∈ s.calls.set i { call with answered := true }, other.answered = true) ∧
      ((∃ jobId, reply = .ok jobId ∧ t = { s with
          calls := s.calls.set i { call with answered := true }
          state := .running
          sources := s.sources ++ [⟨call.projectId, jobId, false⟩]
          sourceRef := some s.sources.length }) ∨
        ∃ failure, reply = .error failure ∧ t = { s with
          calls := s.calls.set i { call with answered := true }
          state := .finished
          output := s.output ++ [.line (messageFor failure)] }) := by
  obtain ⟨call, hcall, hanswer⟩ := Option.bind_eq_some_iff.mp hstep
  rw [Option.ite_none_left_eq_some] at hanswer
  obtain ⟨hwaiting, hanswer⟩ := hanswer
  obtain ⟨hstarting, hlast⟩ := h.waiting i call hcall (eq_false_of_ne_true hwaiting)
  refine ⟨call, hcall, hstarting, ?_, fun other hother => ?_, ?_⟩
  · refine Option.eq_none_iff_forall_ne_some.mpr fun j hj => ?_
    rw [h.streaming j hj] at hstarting
    cases hstarting
  · by_contra hnot
    obtain ⟨k, hk⟩ := List.getElem?_of_mem hother
    by_cases hik : i = k
    · subst hik
      rw [List.getElem?_set_self (by omega)] at hk
      rw [← Option.some.inj hk] at hnot
      exact hnot rfl
    · rw [List.getElem?_set_ne hik] at hk
      have hthis := (h.waiting k other hk (eq_false_of_ne_true hnot)).2
      omega
  · cases reply with
    | ok jobId => exact .inl ⟨jobId, rfl, (Option.some.inj hanswer).symm⟩
    | error failure => exact .inr ⟨failure, rfl, (Option.some.inj hanswer).symm⟩

theorem Inv.answer {reply : Except Failure String} (h : Inv toFixed s)
    (hstep : answer i reply s = some t) : Inv toFixed t := by
  obtain ⟨call, hcall, hstarting, href, hall, htail⟩ := answer_cases h hstep
  have hquiet := h.tells.quiet (.inr hstarting)
  have hrendered : s.rendered.isBusy = true := h.rendered (by rw [hstarting]; rfl)
  rcases htail with ⟨jobId, -, rfl⟩ | ⟨failure, -, rfl⟩
  · refine ⟨fun j => ?_, fun j hj => rfl, fun k other hk hwaiting => ?_,
      fun hstate => (by cases hstate), fun hstate => (by cases hstate), fun _ => hrendered, ?_⟩
    · rw [isOpen_eq_true]
      dsimp only
      rw [Option.some.injEq]
      constructor
      · rintro ⟨source, hsource, hlive⟩
        rcases Nat.lt_trichotomy j s.sources.length with hlt | heq | hgt
        · rw [List.getElem?_append_left hlt] at hsource
          have hopen := (h.ref j).mp (isOpen_eq_true.mpr ⟨source, hsource, hlive⟩)
          rw [href] at hopen
          cases hopen
        · exact heq.symm
        · have hbound := (List.getElem?_eq_some_iff.mp hsource).1
          rw [List.length_append, List.length_singleton] at hbound
          omega
      · rintro rfl
        exact ⟨_, List.getElem?_concat_length, rfl⟩
    · rw [hall other (List.mem_of_getElem? hk)] at hwaiting
      cases hwaiting
    · refine ⟨fun hstate => ?_, fun _ => ⟨h.summary hstarting, ?_, ?_⟩,
        fun hstate => by cases hstate⟩
      · rcases hstate with hstate | hstate <;> cases hstate
      · rw [hquiet.1]
        exact fun _ hframe => absurd hframe List.not_mem_nil
      · rw [hquiet.1, hquiet.2]
        rfl
  · refine ⟨h.ref, fun j hj => ?_, fun k other hk hwaiting => ?_, fun hstate => (by cases hstate),
      fun hstate => (by cases hstate), fun hbusy => (by cases hbusy), ?_⟩
    · rw [href] at hj
      cases hj
    · rw [hall other (List.mem_of_getElem? hk)] at hwaiting
      cases hwaiting
    · refine ⟨fun hstate => ?_, fun hstate => (by cases hstate), fun _ =>
        ⟨[], messageFor failure, fun _ hframe => absurd hframe List.not_mem_nil, ?_,
          .inl ⟨h.summary hstarting, hquiet.1⟩⟩⟩
      · rcases hstate with hstate | hstate <;> cases hstate
      · rw [hquiet.2]
        rfl

theorem Inv.onmessage (h : Inv toFixed s) (hopen : isOpen s j = true) (frame : RunFrame) :
    Inv toFixed (onmessage toFixed frame s) := by
  have hrunning := h.streaming j ((h.ref j).mp hopen)
  obtain ⟨hsummary, hframes, houtput⟩ := h.tells.running hrunning
  cases hexit : summaryOf frame with
  | some result =>
      have hmessage : UseRun.onmessage toFixed frame s =
          finish toFixed result { s with heard := s.heard ++ [frame] } := by
        cases frame with
        | stdout data => cases hexit
        | stderr data => cases hexit
        | exit status exitCode durationMs truncated message =>
            obtain rfl := Option.some.inj hexit
            rfl
      rw [hmessage]
      refine h.closed rfl rfl rfl rfl hrunning ⟨fun hstate => ?_, fun hstate => (by cases hstate),
        fun _ => ⟨s.heard, summaryLine toFixed result, hframes, ?_,
          .inr ⟨frame, result, hexit, rfl, rfl, rfl⟩⟩⟩
      · rcases hstate with hstate | hstate <;> cases hstate
      · rw [← houtput]
        rfl
  | none =>
      have hout := summaryOf_eq_none.mp hexit
      obtain ⟨out, hout_eq, hmessage⟩ : ∃ out, outputOf frame = some out ∧
          UseRun.onmessage toFixed frame s =
            { s with heard := s.heard ++ [frame], output := s.output ++ [out] } := by
        cases frame with
        | stdout data => exact ⟨_, rfl, rfl⟩
        | stderr data => exact ⟨_, rfl, rfl⟩
        | exit status exitCode durationMs truncated message => cases hexit
      rw [hmessage]
      refine ⟨h.ref, h.streaming, h.waiting, h.starting, h.summary, h.rendered,
        fun hstate => ?_, fun _ => ⟨hsummary, ?_, ?_⟩, fun hstate => ?_⟩
      · dsimp only at hstate
        rw [hrunning] at hstate
        rcases hstate with hstate | hstate <;> cases hstate
      · intro f hf
        rcases List.mem_append.mp hf with hf | hf
        · exact hframes f hf
        · rw [List.mem_singleton.mp hf]
          exact hout
      · dsimp only
        rw [List.filterMap_append, List.filterMap_cons_some hout_eq, List.filterMap_nil, houtput]
      · dsimp only at hstate
        rw [hrunning] at hstate
        cases hstate

theorem closeStream_modify (s : State) (j : Nat) (href : s.sourceRef = some j) :
    (closeStream { s with sources := s.sources.modify j close }).sources =
      (closeStream s).sources := by
  unfold closeStream
  dsimp only
  rw [href]
  change (s.sources.modify j close).modify j close = s.sources.modify j close
  rw [List.modify_modify_eq]
  rfl

theorem Inv.onerror (h : Inv toFixed s) (hopen : isOpen s j = true) (fatal : Bool) :
    Inv toFixed
      (onerror { s with sources := if fatal then s.sources.modify j close else s.sources }) := by
  have href := (h.ref j).mp hopen
  have hrunning := h.streaming j href
  obtain ⟨hsummary, hframes, houtput⟩ := h.tells.running hrunning
  have hsome : s.sourceRef.isSome = true := by rw [href]; rfl
  unfold UseRun.onerror
  rw [if_pos hsome]
  refine h.closed rfl ?_ rfl rfl hrunning ⟨fun hstate => ?_, fun hstate => (by cases hstate),
    fun _ => ⟨s.heard, interrupted, hframes, ?_, .inl ⟨hsummary, rfl⟩⟩⟩
  · cases fatal with
    | false => rfl
    | true => exact closeStream_modify s j href
  · rcases hstate with hstate | hstate <;> cases hstate
  · rw [← houtput]
    rfl

theorem Inv.commit (h : Inv toFixed s) (projectId : String) :
    Inv toFixed { s with projectId, rendered := s.state } :=
  ⟨h.ref, h.streaming, h.waiting, h.starting, h.summary, fun hbusy => hbusy,
    h.tells.quiet, h.tells.running, h.tells.finished⟩

theorem Inv.closeStream (h : Inv toFixed s) : Inv toFixed (closeStream s) :=
  ⟨fun j => ref_closeStream h.ref j, fun j hj => absurd hj (Option.some_ne_none j).symm, h.waiting,
    h.starting, h.summary, h.rendered, h.tells.quiet, h.tells.running, h.tells.finished⟩

theorem inv_step (h : Inv toFixed s) (hstep : step toFixed s ev = some t) : Inv toFixed t := by
  cases ev with
  | click entrypoint =>
      rw [step, Option.ite_none_right_eq_some] at hstep
      obtain rfl := Option.some.inj hstep.2
      exact h.start entrypoint
  | answered i reply => exact h.answer hstep
  | message j frame =>
      rw [step, Option.ite_none_right_eq_some] at hstep
      obtain rfl := Option.some.inj hstep.2
      exact h.onmessage hstep.1 frame
  | error j fatal =>
      rw [step, Option.ite_none_right_eq_some] at hstep
      obtain rfl := Option.some.inj hstep.2
      exact h.onerror hstep.1 fatal
  | commit =>
      rw [step, Option.ite_none_right_eq_some] at hstep
      obtain rfl := Option.some.inj hstep.2
      exact h.commit s.projectId
  | navigate projectId =>
      rw [step, Option.ite_none_right_eq_some] at hstep
      obtain rfl := Option.some.inj hstep.2
      split
      · exact h.commit projectId
      · exact h.closeStream.commit projectId
  | unmount =>
      rw [step, Option.ite_none_right_eq_some] at hstep
      obtain rfl := Option.some.inj hstep.2
      have hclosed := h.closeStream
      exact ⟨hclosed.ref, hclosed.streaming, hclosed.waiting, hclosed.starting, hclosed.summary,
        hclosed.rendered, hclosed.tells.quiet, hclosed.tells.running, hclosed.tells.finished⟩

theorem inv_run {projectId : String} {events : List Event}
    (h : run (step toFixed) (init projectId) events = some s) : Inv toFixed s :=
  run_invariant (fun _ _ _ => inv_step) (.init projectId) h

/-- At any time no stream is open but the one the page refers to, and then the run is on and every
click has its answer.  The terminal is told the frames in order and one closing line. -/
theorem one_stream_of_run {projectId : String} {events : List Event}
    (h : run (step toFixed) (init projectId) events = some s) :
    (∀ j, isOpen s j = true → s.sourceRef = some j ∧ s.state = .running ∧
      ∀ call ∈ s.calls, call.answered = true) ∧ Tells toFixed s := by
  have hinv := inv_run h
  refine ⟨fun j hopen => ?_, hinv.tells⟩
  have href := (hinv.ref j).mp hopen
  have hrunning := hinv.streaming j href
  refine ⟨href, hrunning, hinv.not_waiting ?_⟩
  rw [hrunning]
  exact fun heq => by cases heq

/-- A program prints a line and ends. -/
theorem one_stream_of_run_hello : ∃ s, run (step toString) (init "project-1")
      [.click "main.py", .answered 0 (.ok "job-1"), .message 0 (.stdout "hello\n"),
        .message 0 (.exit .ok (some 0) 40 false none)] = some s ∧ Tells toString s ∧
      s.output = [.write "hello\n" false, .line "— exited 0 in 40ms"] := by
  obtain ⟨s, h⟩ : ∃ s, run (step toString) (init "project-1")
      [.click "main.py", .answered 0 (.ok "job-1"), .message 0 (.stdout "hello\n"),
        .message 0 (.exit .ok (some 0) 40 false none)] = some s := ⟨_, rfl⟩
  have htells := (one_stream_of_run h).2
  refine ⟨s, h, htells, ?_⟩
  obtain rfl := Option.some.inj h
  rfl

/-! ## Where streams belong -/

/-- The streams that are open are those of the page that is shown. -/
def Belongs (s : State) : Prop :=
  ∀ source ∈ s.sources, source.closed = false →
    s.mounted = true ∧ source.projectId = s.projectId

/-- A run that has started finds the page still there. -/
def Finds (s : State) : Event → Prop
  | .answered i (.ok _) => ∀ call, s.calls[i]? = some call →
      s.mounted = true ∧ call.projectId = s.projectId
  | _ => True

theorem Inv.belongs_of_none (h : Inv toFixed s) (href : s.sourceRef = none) : Belongs s := by
  intro source hsource hlive
  obtain ⟨j, hj⟩ := List.getElem?_of_mem hsource
  have hopen := (h.ref j).mp (isOpen_eq_true.mpr ⟨source, hj, hlive⟩)
  rw [href] at hopen
  cases hopen

theorem onmessage_frame (frame : RunFrame) (s : State) :
    (onmessage toFixed frame s).sourceRef = none ∨
      (onmessage toFixed frame s).sources = s.sources ∧
      (onmessage toFixed frame s).sourceRef = s.sourceRef ∧
      (onmessage toFixed frame s).mounted = s.mounted ∧
      (onmessage toFixed frame s).projectId = s.projectId ∧
      (onmessage toFixed frame s).state = s.state := by
  cases frame with
  | stdout data => exact .inr ⟨rfl, rfl, rfl, rfl, rfl⟩
  | stderr data => exact .inr ⟨rfl, rfl, rfl, rfl, rfl⟩
  | exit status exitCode durationMs truncated message => exact .inl rfl

theorem onerror_frame (s : State) : (onerror s).sourceRef = none := by
  unfold onerror
  split
  · rfl
  · next hnone =>
      cases href : s.sourceRef with
      | none => rfl
      | some j =>
          rw [href] at hnone
          exact absurd rfl hnone

theorem belongs_answer {reply : Except Failure String} (h : Inv toFixed s) (hb : Belongs s)
    (hstep : answer i reply s = some t) : Belongs t ↔ Finds s (.answered i reply) := by
  obtain ⟨call, hcall, -, href, -, ⟨jobId, rfl, rfl⟩ | ⟨failure, rfl, rfl⟩⟩ := answer_cases h hstep
  · constructor
    · intro hbelongs other hother
      obtain rfl := Option.some.inj (hcall.symm.trans hother)
      exact hbelongs ⟨call.projectId, jobId, false⟩
        (List.mem_append_right _ List.mem_cons_self) rfl
    · intro hfinds source hsource hlive
      rcases List.mem_append.mp hsource with hold | hnew
      · exact hb source hold hlive
      · rw [List.mem_singleton.mp hnew]
        exact hfinds call hcall
  · exact iff_of_true hb trivial

theorem belongs_step (h : Inv toFixed s) (hb : Belongs s) (hstep : step toFixed s ev = some t) :
    Belongs t ↔ Finds s ev := by
  have hinv := inv_step h hstep
  cases ev with
  | answered i reply => exact belongs_answer h hb hstep
  | click entrypoint =>
      refine iff_of_true ?_ trivial
      rw [step, Option.ite_none_right_eq_some] at hstep
      obtain rfl := Option.some.inj hstep.2
      unfold start
      split
      · exact hb
      · exact h.closeStream.belongs_of_none rfl
  | message j frame =>
      refine iff_of_true ?_ trivial
      rw [step, Option.ite_none_right_eq_some] at hstep
      obtain rfl := Option.some.inj hstep.2
      rcases @onmessage_frame toFixed frame s with hnone | ⟨hsources, -, hmounted, hproject, -⟩
      · exact hinv.belongs_of_none hnone
      · unfold Belongs
        rw [hsources, hmounted, hproject]
        exact hb
  | error j fatal =>
      refine iff_of_true ?_ trivial
      rw [step, Option.ite_none_right_eq_some] at hstep
      obtain rfl := Option.some.inj hstep.2
      exact hinv.belongs_of_none (onerror_frame _)
  | commit =>
      refine iff_of_true ?_ trivial
      rw [step, Option.ite_none_right_eq_some] at hstep
      obtain rfl := Option.some.inj hstep.2
      exact hb
  | navigate projectId =>
      refine iff_of_true ?_ trivial
      rw [step, Option.ite_none_right_eq_some] at hstep
      obtain rfl := Option.some.inj hstep.2
      by_cases hsame : projectId = s.projectId
      · rw [if_pos hsame, hsame]
        exact hb
      · rw [if_neg hsame] at hinv ⊢
        exact hinv.belongs_of_none rfl
  | unmount =>
      refine iff_of_true ?_ trivial
      rw [step, Option.ite_none_right_eq_some] at hstep
      obtain rfl := Option.some.inj hstep.2
      exact hinv.belongs_of_none rfl

/-- What closes a stream: its exit frame, an error of it, and the page that moves on or is left. -/
def Closes (j : Nat) (s : State) : Event → Prop
  | .message k frame => k = j ∧ frame.isExit = true
  | .error k _ => k = j
  | .navigate projectId => projectId ≠ s.projectId
  | .unmount => True
  | .click _ | .answered _ _ | .commit => False

theorem open_step (h : Inv toFixed s) (hopen : isOpen s j = true)
    (hstep : step toFixed s ev = some t) : isOpen t j = true ↔ ¬Closes j s ev := by
  have hinv := inv_step h hstep
  have href := (h.ref j).mp hopen
  have hrunning := h.streaming j href
  have hclosed (hnone : t.sourceRef = none) : ¬isOpen t j = true := by
    rw [hinv.ref, hnone]
    exact (Option.some_ne_none j).symm
  have honly {k : Nat} (hk : isOpen s k = true) : k = j :=
    Option.some.inj (((h.ref k).mp hk).symm.trans href)
  cases ev with
  | click entrypoint =>
      rw [step, Option.ite_none_right_eq_some] at hstep
      obtain rfl := Option.some.inj hstep.2
      have hbusy : s.rendered.isBusy = true := h.rendered (by rw [hrunning]; rfl)
      rw [start, if_pos hbusy]
      exact iff_of_true hopen not_false
  | answered i reply =>
      obtain ⟨call, -, hstarting, -⟩ := answer_cases h hstep
      rw [hrunning] at hstarting
      cases hstarting
  | message k frame =>
      rw [step, Option.ite_none_right_eq_some] at hstep
      obtain ⟨hk, hstep⟩ := hstep
      obtain rfl := Option.some.inj hstep
      obtain rfl := honly hk
      cases frame with
      | stdout data => exact iff_of_true hopen fun hcloses => by cases hcloses.2
      | stderr data => exact iff_of_true hopen fun hcloses => by cases hcloses.2
      | exit status exitCode durationMs truncated message =>
          exact iff_of_false (hclosed rfl) (not_not_intro ⟨rfl, rfl⟩)
  | error k fatal =>
      rw [step, Option.ite_none_right_eq_some] at hstep
      obtain ⟨hk, hstep⟩ := hstep
      obtain rfl := Option.some.inj hstep
      exact iff_of_false (hclosed (onerror_frame _)) (not_not_intro (honly hk))
  | commit =>
      rw [step, Option.ite_none_right_eq_some] at hstep
      obtain rfl := Option.some.inj hstep.2
      exact iff_of_true hopen not_false
  | navigate projectId =>
      rw [step, Option.ite_none_right_eq_some] at hstep
      obtain rfl := Option.some.inj hstep.2
      by_cases hsame : projectId = s.projectId
      · rw [if_pos hsame]
        exact iff_of_true hopen (not_not_intro hsame)
      · rw [if_neg hsame] at hclosed ⊢
        exact iff_of_false (hclosed rfl) (not_not_intro hsame)
  | unmount =>
      rw [step, Option.ite_none_right_eq_some] at hstep
      obtain rfl := Option.some.inj hstep.2
      exact iff_of_false (hclosed rfl) (not_not_intro trivial)

/-- No stream ever outlives the page or the project just when the answer to every click that has
started a run finds the page still there, with the project of the click.  An open stream, wherever
it belongs, lasts just until its exit frame or an error of it, or until the page moves on or is
left. -/
theorem streams_belong_iff {projectId : String} {events : List Event}
    (h : run (step toFixed) (init projectId) events = some s) :
    ((∀ front t, front <+: events → run (step toFixed) (init projectId) front = some t →
      Belongs t) ↔ Meets (step toFixed) Finds (init projectId) events) ∧
    ∀ j, isOpen s j = true → ∀ later u, run (step toFixed) s later = some u →
      ((∀ front t, front <+: later → run (step toFixed) s front = some t → isOpen t j = true) ↔
        Meets (step toFixed) (fun t ev => ¬Closes j t ev) s later) := by
  refine ⟨?_, fun j hopen later u hlater => ?_⟩
  · exact forall_prefix_iff_meets_beside (fun _ _ _ => inv_step) (fun _ _ _ => belongs_step)
      (.init projectId) (fun _ hsource => absurd hsource List.not_mem_nil) h
  · exact forall_prefix_iff_meets_beside (P := fun t => isOpen t j = true)
      (fun _ _ _ => inv_step) (fun _ _ _ => open_step) (inv_run h) hopen hlater

/-- The page is left before the request has its answer, and the stream that is opened then ends with
its exit frame. -/
theorem streams_belong_iff_left : ∃ s, run (step toString) (init "project-1")
      [.click "main.py", .unmount, .answered 0 (.ok "job-1")] = some s ∧
    ((∀ front t, front <+: [.click "main.py", .unmount, .answered 0 (.ok "job-1")] →
        run (step toString) (init "project-1") front = some t → Belongs t) ↔
      Meets (step toString) Finds (init "project-1")
        [.click "main.py", .unmount, .answered 0 (.ok "job-1")]) ∧
    isOpen s 0 = true ∧ ∃ u, run (step toString) s
        [.message 0 (.stdout "hello\n"), .message 0 (.exit .ok (some 0) 40 false none)] = some u ∧
      ((∀ front t, front <+: [.message 0 (.stdout "hello\n"),
            .message 0 (.exit .ok (some 0) 40 false none)] →
          run (step toString) s front = some t → isOpen t 0 = true) ↔
        Meets (step toString) (fun t ev => ¬Closes 0 t ev) s
          [.message 0 (.stdout "hello\n"), .message 0 (.exit .ok (some 0) 40 false none)]) := by
  obtain ⟨s, h⟩ : ∃ s, run (step toString) (init "project-1")
      [.click "main.py", .unmount, .answered 0 (.ok "job-1")] = some s := ⟨_, rfl⟩
  have hopen : isOpen s 0 = true := by
    obtain rfl := Option.some.inj h
    rfl
  obtain ⟨u, hu⟩ : ∃ u, run (step toString) s [.message 0 (.stdout "hello\n"),
      .message 0 (.exit .ok (some 0) 40 false none)] = some u := by
    obtain rfl := Option.some.inj h
    exact ⟨_, rfl⟩
  obtain ⟨hbelongs, hlasts⟩ := streams_belong_iff h
  exact ⟨s, h, hbelongs, hopen, u, hu, hlasts 0 hopen _ u hu⟩

/-! ## Runs that never end -/

/-- While the page is busy there is something for it to wait for. -/
def Awaits (s : State) : Prop :=
  s.mounted = true → s.state.isBusy = true →
    (∃ j, isOpen s j = true) ∨ ∃ call ∈ s.calls, call.answered = false

/-- The page does not move on while a stream is open. -/
def Stays (s : State) : Event → Prop
  | .navigate projectId => projectId = s.projectId ∨ ∀ j, isOpen s j = false
  | _ => True

theorem Inv.awaits_of_not_running (h : Inv toFixed s) (hrunning : s.state ≠ .running) :
    Awaits s := by
  intro _ hbusy
  cases hstate : s.state with
  | idle =>
      rw [hstate] at hbusy
      cases hbusy
  | starting => exact .inr (h.starting hstate)
  | running => exact absurd hstate hrunning
  | finished =>
      rw [hstate] at hbusy
      cases hbusy

theorem Inv.awaits_of_ref (h : Inv toFixed s) (href : s.sourceRef = some j) : Awaits s :=
  fun _ _ => .inl ⟨j, (h.ref j).mpr href⟩

theorem awaits_step (h : Inv toFixed s) (ha : Awaits s) (hstep : step toFixed s ev = some t) :
    Awaits t ↔ Stays s ev := by
  have hinv := inv_step h hstep
  cases ev with
  | click entrypoint =>
      refine iff_of_true ?_ trivial
      rw [step, Option.ite_none_right_eq_some] at hstep
      obtain rfl := Option.some.inj hstep.2
      rw [start] at hinv ⊢
      by_cases hbusy : s.rendered.isBusy = true
      · rw [if_pos hbusy]
        exact ha
      · rw [if_neg hbusy] at hinv ⊢
        exact hinv.awaits_of_not_running fun heq => by cases heq
  | answered i reply =>
      refine iff_of_true ?_ trivial
      obtain ⟨call, -, -, -, -, ⟨jobId, -, rfl⟩ | ⟨failure, -, rfl⟩⟩ := answer_cases h hstep
      · exact hinv.awaits_of_ref rfl
      · exact hinv.awaits_of_not_running fun heq => by cases heq
  | message j frame =>
      refine iff_of_true ?_ trivial
      rw [step, Option.ite_none_right_eq_some] at hstep
      obtain ⟨hopen, hstep⟩ := hstep
      obtain rfl := Option.some.inj hstep
      cases frame with
      | stdout data => exact hinv.awaits_of_ref ((h.ref j).mp hopen)
      | stderr data => exact hinv.awaits_of_ref ((h.ref j).mp hopen)
      | exit status exitCode durationMs truncated message =>
          exact hinv.awaits_of_not_running fun heq => by cases heq
  | error j fatal =>
      refine iff_of_true ?_ trivial
      rw [step, Option.ite_none_right_eq_some] at hstep
      obtain ⟨hopen, hstep⟩ := hstep
      obtain rfl := Option.some.inj hstep
      have hsome : s.sourceRef.isSome = true := by
        rw [(h.ref j).mp hopen]
        rfl
      refine hinv.awaits_of_not_running ?_
      unfold onerror
      rw [if_pos hsome]
      exact fun heq => by cases heq
  | commit =>
      refine iff_of_true ?_ trivial
      rw [step, Option.ite_none_right_eq_some] at hstep
      obtain rfl := Option.some.inj hstep.2
      exact ha
  | navigate projectId =>
      rw [step, Option.ite_none_right_eq_some] at hstep
      obtain ⟨hmounted, hstep⟩ := hstep
      obtain rfl := Option.some.inj hstep
      by_cases hsame : projectId = s.projectId
      · rw [if_pos hsame]
        exact iff_of_true ha (.inl hsame)
      · rw [if_neg hsame] at hinv ⊢
        constructor
        · intro hawaits
          refine .inr fun j => ?_
          by_contra hopen
          have hrunning := h.streaming j ((h.ref j).mp (eq_true_of_ne_false hopen))
          have hbusy : s.state.isBusy = true := by rw [hrunning]; rfl
          have hnot : s.state ≠ .starting := by rw [hrunning]; exact fun heq => by cases heq
          rcases hawaits hmounted hbusy with ⟨k, hk⟩ | ⟨call, hcall, hwaiting⟩
          · exact absurd ((hinv.ref k).mp hk) (Option.some_ne_none k).symm
          · rw [h.not_waiting hnot call hcall] at hwaiting
            cases hwaiting
        · rintro (heq | hclosed) _ hbusy
          · exact absurd heq hsame
          · rcases ha hmounted hbusy with ⟨k, hk⟩ | hwaiting
            · rw [hclosed k] at hk
              cases hk
            · exact .inr hwaiting
  | unmount =>
      refine iff_of_true ?_ trivial
      rw [step, Option.ite_none_right_eq_some] at hstep
      obtain rfl := Option.some.inj hstep.2
      exact fun hmounted => absurd hmounted Bool.false_ne_true

/-- A page that is busy with nothing to wait for stays so until it is left. -/
theorem stuck_step (h : Inv toFixed s) (hstuck : ¬Awaits s) (hstep : step toFixed s ev = some t)
    (hmounted : t.mounted = true) : ¬Awaits t := by
  unfold Awaits at hstuck
  push Not at hstuck
  obtain ⟨hshown, hbusy, hclosed, hanswered⟩ := hstuck
  have hopen (j : Nat) : isOpen s j ≠ true := hclosed j
  cases ev with
  | click entrypoint =>
      rw [step, Option.ite_none_right_eq_some] at hstep
      obtain rfl := Option.some.inj hstep.2
      rw [start, if_pos (h.rendered hbusy)]
      unfold Awaits
      push Not
      exact ⟨hshown, hbusy, hclosed, hanswered⟩
  | answered i reply =>
      obtain ⟨call, hcall, hstarting, -⟩ := answer_cases h hstep
      obtain ⟨other, hother, hwaiting⟩ := h.starting hstarting
      exact absurd hwaiting (hanswered other hother)
  | message j frame =>
      rw [step, Option.ite_none_right_eq_some] at hstep
      exact absurd hstep.1 (hopen j)
  | error j fatal =>
      rw [step, Option.ite_none_right_eq_some] at hstep
      exact absurd hstep.1 (hopen j)
  | commit =>
      rw [step, Option.ite_none_right_eq_some] at hstep
      obtain rfl := Option.some.inj hstep.2
      unfold Awaits
      push Not
      exact ⟨hshown, hbusy, hclosed, hanswered⟩
  | navigate projectId =>
      rw [step, Option.ite_none_right_eq_some] at hstep
      obtain rfl := Option.some.inj hstep.2
      unfold Awaits
      push Not
      by_cases hsame : projectId = s.projectId
      · rw [if_pos hsame]
        exact ⟨hshown, hbusy, hclosed, hanswered⟩
      · rw [if_neg hsame]
        exact ⟨hshown, hbusy, fun j => by
          change isOpen (closeStream s) j ≠ true
          rw [isOpen_closeStream h.ref]
          exact Bool.false_ne_true, hanswered⟩
  | unmount =>
      rw [step, Option.ite_none_right_eq_some] at hstep
      obtain rfl := Option.some.inj hstep.2
      cases hmounted

theorem mounted_onerror (s : State) : (onerror s).mounted = s.mounted := by
  unfold onerror
  split <;> rfl

theorem mounted_step (hstep : step toFixed s ev = some t) (hmounted : t.mounted = true) :
    s.mounted = true := by
  cases ev with
  | click entrypoint =>
      rw [step, Option.ite_none_right_eq_some] at hstep
      exact hstep.1
  | commit =>
      rw [step, Option.ite_none_right_eq_some] at hstep
      exact hstep.1
  | navigate projectId =>
      rw [step, Option.ite_none_right_eq_some] at hstep
      exact hstep.1
  | unmount =>
      rw [step, Option.ite_none_right_eq_some] at hstep
      exact hstep.1
  | answered i reply =>
      obtain ⟨call, -, hanswer⟩ := Option.bind_eq_some_iff.mp hstep
      rw [Option.ite_none_left_eq_some] at hanswer
      obtain ⟨-, hanswer⟩ := hanswer
      cases reply with
      | ok jobId =>
          rw [← Option.some.inj hanswer] at hmounted
          exact hmounted
      | error failure =>
          rw [← Option.some.inj hanswer] at hmounted
          exact hmounted
  | message j frame =>
      rw [step, Option.ite_none_right_eq_some] at hstep
      obtain rfl := Option.some.inj hstep.2
      cases frame with
      | stdout data => exact hmounted
      | stderr data => exact hmounted
      | exit status exitCode durationMs truncated message => exact hmounted
  | error j fatal =>
      rw [step, Option.ite_none_right_eq_some] at hstep
      obtain rfl := Option.some.inj hstep.2
      rw [mounted_onerror] at hmounted
      exact hmounted

/-- The page is never busy with nothing to wait for just when it does not move on to another project
while a stream is open.  If it is, it stays so until it is left, whatever is clicked. -/
theorem never_stuck_iff {projectId : String} {events : List Event}
    (h : run (step toFixed) (init projectId) events = some s) :
    ((∀ front t, front <+: events → run (step toFixed) (init projectId) front = some t →
      Awaits t) ↔ Meets (step toFixed) Stays (init projectId) events) ∧
    (¬Awaits s → ∀ later t, run (step toFixed) s later = some t → t.mounted = true →
      ¬Awaits t) := by
  refine ⟨?_, fun hstuck later t hlater hmounted => ?_⟩
  · exact forall_prefix_iff_meets_beside (fun _ _ _ => inv_step) (fun _ _ _ => awaits_step)
      (.init projectId) (fun _ hbusy => by cases hbusy) h
  · have hkept : Inv toFixed t ∧ (t.mounted = true → ¬Awaits t) :=
      run_invariant (P := fun t => Inv toFixed t ∧ (t.mounted = true → ¬Awaits t))
        (fun s ev t hP hstep => ⟨inv_step hP.1 hstep, fun hmounted =>
          stuck_step hP.1 (hP.2 (mounted_step hstep hmounted)) hstep hmounted⟩)
        ⟨inv_run h, fun _ => hstuck⟩ hlater
    exact hkept.2 hmounted

/-- The page moves on to another project while its run is on. -/
theorem never_stuck_iff_moved : ∃ s, run (step toString) (init "project-1")
      [.click "main.py", .answered 0 (.ok "job-1"), .navigate "project-2"] = some s ∧
    ((∀ front t,
        front <+: [.click "main.py", .answered 0 (.ok "job-1"), .navigate "project-2"] →
        run (step toString) (init "project-1") front = some t → Awaits t) ↔
      Meets (step toString) Stays (init "project-1")
        [.click "main.py", .answered 0 (.ok "job-1"), .navigate "project-2"]) := by
  obtain ⟨s, h⟩ : ∃ s, run (step toString) (init "project-1")
      [.click "main.py", .answered 0 (.ok "job-1"), .navigate "project-2"] = some s := ⟨_, rfl⟩
  exact ⟨s, h, (never_stuck_iff h).1⟩

end CollabIDE.Terminal.UseRun
