import CollabIDE.Runner.Sandbox
/-!
# A run that hits a limit is killed

The abort fires once.  If it fires before the driver listens, nobody ever hears
it; if the kill it issues arrives before the container has started, nothing is
killed.  In every other order the kill is on its way for as long as the program
can run.
-/

namespace CollabIDE.Runner.Limits

open CollabIDE.Lib.Machine CollabIDE.Shared.Languages CollabIDE.Runner.Sandbox

/-- The driver has not reached the registration of its abort listener. -/
def beforeListener : Stage → Bool
  | .staging | .creating | .copying => true
  | _ => false

/-- The timer does not fire before the listener is registered, and no kill
arrives at a container that is created but not yet started. -/
def Timely (s : State) : Event → Prop
  | .timerFires => beforeListener s.stage = false
  | .killArrives => s.container ≠ .created
  | _ => True

/-- A kill reached the container while it was running, or is still pending. -/
def Covered (s : State) : Prop := s.kill = .pending ∨ s.kill = .landed

/-- The program is running or can still start. -/
def Startable (s : State) : Prop :=
  s.container = .running ∨ s.container = .created ∧ s.stage = .streaming

/-! ## What the stages fix -/

/-- How the stage, the listener, the container and the kill hang together. -/
structure Shape (s : State) : Prop where
  listening_iff : s.listening = true ↔ s.stage = .streaming
  running_stage : s.container = .running → s.stage = .streaming
  early_kill : beforeListener s.stage = true → s.kill = .notIssued
  kill_reason : s.reason = none → s.kill = .notIssued

/-- Every limit that fired after the listener went up has its kill pending for
as long as the program can run. -/
def Safe (s : State) : Prop :=
  s.reason ≠ none → beforeListener s.stage = false ∧ (Startable s → s.kill = .pending)

/-- A limit fired and its kill was never issued, or missed. -/
def Lost (s : State) : Prop :=
  s.reason ≠ none ∧ (s.kill = .notIssued ∨ s.kill = .missed)

theorem abortWith_of_reason {s : State} (why : AbortReason) (h : s.reason ≠ none) :
    abortWith s why = s := if_pos h

theorem abortWith_of_listening {s : State} (why : AbortReason) (hr : s.reason = none)
    (hl : s.listening = true) :
    abortWith s why = { s with reason := some why, killed := true, kill := .pending } := by
  simp [abortWith, hr, hl, onAbort]

theorem abortWith_of_not_listening {s : State} (why : AbortReason) (hr : s.reason = none)
    (hl : s.listening = false) :
    abortWith s why = { s with reason := some why } := by
  simp [abortWith, hr, hl]

theorem shape_abortWith {s : State} (hs : Shape s) (why : AbortReason) :
    Shape (abortWith s why) := by
  by_cases hr : s.reason = none
  · cases hl : s.listening with
    | true =>
        have hstage := hs.listening_iff.mp hl
        rw [abortWith_of_listening why hr hl]
        exact ⟨hs.listening_iff, hs.running_stage, by simp [hstage, beforeListener], by simp⟩
    | false =>
        rw [abortWith_of_not_listening why hr hl]
        exact ⟨hs.listening_iff, hs.running_stage, fun _ => hs.kill_reason hr, by simp⟩
  · rw [abortWith_of_reason why hr]
    exact hs

theorem lost_abortWith {s : State} (hlost : Lost s) (why : AbortReason) :
    Lost (abortWith s why) := by
  rw [abortWith_of_reason why hlost.1]
  exact hlost

/-- Aborting is safe from the moment the listener is up, and also once the
program has stopped. -/
theorem safe_abortWith {s : State} (hs : Shape s) (hsafe : Safe s) (why : AbortReason)
    (hlate : beforeListener s.stage = false) : Safe (abortWith s why) := by
  by_cases hr : s.reason = none
  · cases hl : s.listening with
    | true =>
        rw [abortWith_of_listening why hr hl]
        exact fun _ => ⟨hlate, fun _ => rfl⟩
    | false =>
        rw [abortWith_of_not_listening why hr hl]
        refine fun _ => ⟨hlate, fun hstart => ?_⟩
        have hstream : s.stage = .streaming := by
          rcases hstart with hrun | ⟨-, hstream⟩
          · exact hs.running_stage hrun
          · exact hstream
        rw [hs.listening_iff.mpr hstream] at hl
        cases hl
  · rw [abortWith_of_reason why hr]
    exact hsafe

theorem onOutput_cases (s : State) (stream : OutputStream) (chunk : String) :
    ∃ sent texts, onOutput s stream chunk = { s with sentBytes := sent, forwarded := texts } ∨
      onOutput s stream chunk =
        abortWith { s with sentBytes := sent, forwarded := texts } .output := by
  unfold onOutput
  by_cases hcut : s.reason = some .output
  · exact ⟨s.sentBytes, s.forwarded, Or.inl (if_pos hcut)⟩
  · by_cases hfits : s.sentBytes + chunk.utf8ByteSize ≤ maxOutputBytes
    · refine ⟨s.sentBytes + chunk.utf8ByteSize, s.forwarded ++ [(stream, chunk)], Or.inl ?_⟩
      simp only [if_neg hcut, if_pos hfits]
    · by_cases hrem : 0 < maxOutputBytes - s.sentBytes
      · refine ⟨s.sentBytes + (maxOutputBytes - s.sentBytes), s.forwarded ++ [(stream,
          String.ofList (cutAtBytes chunk.toList (maxOutputBytes - s.sentBytes)))], Or.inr ?_⟩
        simp only [if_neg hcut, if_neg hfits, if_pos hrem]
      · refine ⟨s.sentBytes, s.forwarded, Or.inr ?_⟩
        simp only [if_neg hcut, if_neg hfits, if_neg hrem]

/-! ## One step -/

theorem Shape.not_listening {s : State} (hs : Shape s) (hstage : s.stage ≠ .streaming) :
    s.listening = false :=
  Bool.eq_false_iff.mpr fun hlisten => hstage (hs.listening_iff.mp hlisten)

theorem Shape.not_running {s : State} (hs : Shape s) (hstage : s.stage ≠ .streaming) :
    s.container ≠ .running :=
  fun hrunning => hstage (hs.running_stage hrunning)

theorem Shape.settle {s : State} (hs : Shape s) (hrunning : s.container ≠ .running) {stage : Stage}
    (hlate : beforeListener stage = false) (hstage : stage ≠ .streaming) {listening : Bool}
    (hoff : listening = false) (timerArmed : Bool) (result : Option (Except String RunResult)) :
    Shape { s with stage, listening, timerArmed, result } where
  listening_iff := by simp [hstage, hoff]
  running_stage hrun := absurd hrun hrunning
  early_kill := by simp [hlate]
  kill_reason := hs.kill_reason

theorem shape_step {s s' : State} {e : Event} (hs : Shape s) (h : step s e = some s') :
    Shape s' := by
  obtain ⟨hlisten, hrunning, hearly, hreason⟩ := id hs
  cases took h with
  | staged hstage =>
      refine ⟨?_, fun hrun => ?_, fun _ => hearly (by simp [hstage, beforeListener]), hreason⟩
      · simp [hlisten, hstage]
      · simp [hrunning hrun] at hstage
  | created hstage =>
      refine ⟨?_, by simp, fun _ => hearly (by simp [hstage, beforeListener]), hreason⟩
      simp [hlisten, hstage]
  | copied hstage => exact ⟨by simp, fun _ => rfl, by simp [beforeListener], hreason⟩
  | starts hstage hcreated => exact ⟨hlisten, fun _ => hstage, hearly, hreason⟩
  | output hstage hcontainer stream chunk =>
      obtain ⟨sent, texts, hout | hout⟩ := onOutput_cases s stream chunk
      · rw [hout]
        exact ⟨hlisten, hrunning, hearly, hreason⟩
      · rw [hout]
        exact shape_abortWith (s := { s with sentBytes := sent, forwarded := texts })
          ⟨hlisten, hrunning, hearly, hreason⟩ _
  | timerFires harmed =>
      exact shape_abortWith (s := { s with timerArmed := false })
        ⟨hlisten, hrunning, hearly, hreason⟩ _
  | killLands hpending hrun =>
      refine ⟨hlisten, by simp, fun he => ?_, fun hnone => ?_⟩
      · simp [hearly he] at hpending
      · simp [hreason hnone] at hpending
  | killMisses hpending hrun =>
      refine ⟨hlisten, hrunning, fun he => ?_, fun hnone => ?_⟩
      · simp [hearly he] at hpending
      · simp [hreason hnone] at hpending
  | exits hrun => exact ⟨hlisten, by simp, hearly, hreason⟩
  | closed hstage hrun code durationMs => exact hs.settle hrun rfl (by simp) rfl _ _
  | failsEarly hstage hrun message =>
      have hoff : s.listening = false := by
        apply hs.not_listening
        rcases hstage with hstage | hstage <;> simp [hstage]
      exact hs.settle hrun rfl (by simp) hoff _ _
  | failsLate hstage hrun message => exact hs.settle hrun rfl (by simp) rfl _ _
  | failsRemoving hstage hrun message =>
      exact hs.settle hrun rfl (by simp) (hs.not_listening (by simp [hstage])) _ _
  | failsDeleting hstage hrun message =>
      exact hs.settle hrun rfl (by simp) (hs.not_listening (by simp [hstage])) _ _
  | removed hstage =>
      have hoff := hs.not_listening (by simp [hstage])
      exact ⟨by simp [hoff], by simp, by simp [beforeListener], hreason⟩
  | deleted hstage =>
      exact hs.settle (hs.not_running (by simp [hstage])) rfl (by simp)
        (hs.not_listening (by simp [hstage])) _ _

theorem safe_of_stopped {s : State} (hlate : beforeListener s.stage = false)
    (hrunning : s.container ≠ .running) (hstage : s.stage ≠ .streaming) : Safe s := by
  refine fun _ => ⟨hlate, ?_⟩
  rintro (hrun | ⟨-, hstream⟩)
  · exact absurd hrun hrunning
  · exact absurd hstream hstage

theorem safe_step {s s' : State} {e : Event} (hs : Shape s) (hsafe : Safe s) (hok : Timely s e)
    (h : step s e = some s') : Safe s' := by
  cases took h with
  | staged hstage => exact fun hr => absurd (hsafe hr).1 (by simp [hstage, beforeListener])
  | created hstage => exact fun hr => absurd (hsafe hr).1 (by simp [hstage, beforeListener])
  | copied hstage => exact fun hr => absurd (hsafe hr).1 (by simp [hstage, beforeListener])
  | starts hstage hcreated =>
      exact fun hr => ⟨(hsafe hr).1, fun _ => (hsafe hr).2 (Or.inr ⟨hcreated, hstage⟩)⟩
  | output hstage hcontainer stream chunk =>
      obtain ⟨sent, texts, hout | hout⟩ := onOutput_cases s stream chunk
      · rw [hout]
        exact hsafe
      · rw [hout]
        exact safe_abortWith (s := { s with sentBytes := sent, forwarded := texts })
          ⟨hs.1, hs.2, hs.3, hs.4⟩ hsafe _ (by simp [hstage, beforeListener])
  | timerFires harmed =>
      exact safe_abortWith (s := { s with timerArmed := false })
        ⟨hs.1, hs.2, hs.3, hs.4⟩ hsafe _ hok
  | killLands hpending hrun => exact fun hr => ⟨(hsafe hr).1, by simp [Startable]⟩
  | killMisses hpending hrun =>
      refine fun hr => ⟨(hsafe hr).1, ?_⟩
      rintro (hrun' | ⟨hcreated, -⟩)
      · exact absurd hrun' hrun
      · exact absurd hcreated hok
  | exits hrun => exact fun hr => ⟨(hsafe hr).1, by simp [Startable]⟩
  | closed hstage hrun code durationMs => exact safe_of_stopped rfl hrun (by simp)
  | failsEarly hstage hrun message => exact safe_of_stopped rfl hrun (by simp)
  | failsLate hstage hrun message => exact safe_of_stopped rfl hrun (by simp)
  | failsRemoving hstage hrun message => exact safe_of_stopped rfl hrun (by simp)
  | failsDeleting hstage hrun message => exact safe_of_stopped rfl hrun (by simp)
  | removed hstage => exact safe_of_stopped rfl (by simp) (by simp)
  | deleted hstage =>
      exact safe_of_stopped rfl (hs.not_running (by simp [hstage])) (by simp)

/-- A recorded reason and a kill that is not pending never change again. -/
theorem lost_step {s s' : State} {e : Event} (hlost : Lost s) (h : step s e = some s') :
    Lost s' := by
  have hnp : s.kill ≠ .pending := by
    rcases hlost.2 with hk | hk <;> simp [hk]
  cases took h with
  | output hstage hcontainer stream chunk =>
      obtain ⟨sent, texts, hout | hout⟩ := onOutput_cases s stream chunk
      · rw [hout]
        exact hlost
      · rw [hout]
        exact lost_abortWith (s := { s with sentBytes := sent, forwarded := texts }) hlost _
  | timerFires harmed => exact lost_abortWith (s := { s with timerArmed := false }) hlost _
  | killLands hpending hrun => exact absurd hpending hnp
  | killMisses hpending hrun => exact absurd hpending hnp
  | _ => exact hlost

/-- A step at the wrong time loses the kill. -/
theorem lost_of_not_timely {s s' : State} {e : Event} (hs : Shape s) (hbad : ¬ Timely s e)
    (h : step s e = some s') : Lost s' := by
  cases took h with
  | timerFires harmed =>
      have hearly : beforeListener s.stage = true := by simpa [Timely] using hbad
      have hk := hs.early_kill hearly
      have hoff : s.listening = false := by
        apply hs.not_listening
        rintro hstream
        simp [hstream, beforeListener] at hearly
      by_cases hr : s.reason = none
      · rw [abortWith_of_not_listening (s := { s with timerArmed := false }) _ hr hoff]
        exact ⟨by simp, Or.inl hk⟩
      · rw [abortWith_of_reason (s := { s with timerArmed := false }) _ hr]
        exact ⟨hr, Or.inl hk⟩
  | killLands hpending hrun =>
      have hcreated : s.container = .created := by simpa [Timely] using hbad
      rw [hcreated] at hrun
      cases hrun
  | killMisses hpending hrun =>
      have hset : s.reason ≠ none := fun hnone => by simp [hs.kill_reason hnone] at hpending
      exact ⟨hset, Or.inr rfl⟩
  | _ => exact absurd trivial hbad

/-! ## Whole runs -/

theorem shape_launch (spec : RunSpec) : Shape (launch spec) := by
  cases hcheck : checkSpec spec <;>
    exact ⟨by simp [launch, hcheck], by simp [launch], by simp [launch], by simp [launch]⟩

theorem shape_run {spec : RunSpec} {events : List Event} {s : State}
    (h : run step (launch spec) events = some s) : Shape s :=
  run_invariant (fun _ _ _ => shape_step) (shape_launch spec) h

/-- Once a limit was hit and while the program is running, a kill is pending or
has reached it, exactly if no timer fired before the listener was registered and
no kill arrived before the container had started. -/
theorem covered_iff_timely (spec : RunSpec) (events : List Event) (s : State)
    (h : run step (launch spec) events = some s) (hreason : s.reason ≠ none)
    (hrunning : s.container = .running) :
    Covered s ↔ Meets step Timely (launch spec) events := by
  constructor
  · intro hcovered
    by_contra hnot
    obtain ⟨pre, e, post, u, v, -, hpre, hbad, hstep, hpost⟩ := exists_step_of_not_meets h hnot
    have hlost : Lost s := run_invariant (fun _ _ _ => lost_step)
      (lost_of_not_timely (shape_run hpre) hbad hstep) hpost
    rcases hlost.2 with hk | hk <;> simp [Covered, hk] at hcovered
  · intro hok
    have hinit : Shape (launch spec) ∧ Safe (launch spec) :=
      ⟨shape_launch spec, fun hr => absurd rfl hr⟩
    have hsafe := run_invariant_of_meets (P := fun u => Shape u ∧ Safe u)
      (fun _ _ _ hu hok hstep => ⟨shape_step hu.1 hstep, safe_step hu.1 hu.2 hok hstep⟩)
      hinit hok h
    exact Or.inl ((hsafe.2 hreason).2 (Or.inl hrunning))

/-- A one-file Python run. -/
def helloRun : RunSpec := ⟨"run-1", "python", "main.py", [⟨"main.py", "print(1)"⟩]⟩

theorem covered_iff_timely_slow_program :
    Covered { launch helloRun with
      stage := .streaming, container := .running, listening := true, reason := some .timeout,
      timerArmed := false, kill := .pending, killed := true } ↔
      Meets step Timely (launch helloRun) [.staged, .created, .copied, .starts, .timerFires] :=
  covered_iff_timely helloRun _ _ rfl (by decide) rfl

/-- The timer fires while `docker cp` is still running; the program then runs
with nothing left to stop it. -/
theorem timer_before_listener_not_covered :
    ¬ ∀ s, run step (launch helloRun) [.staged, .created, .timerFires, .copied, .starts] = some s →
      s.reason ≠ none → s.container = .running → Covered s := by
  intro hall
  have hcovered := hall _ rfl (by decide) rfl
  simp [Covered] at hcovered
  revert hcovered
  decide

end CollabIDE.Runner.Limits
