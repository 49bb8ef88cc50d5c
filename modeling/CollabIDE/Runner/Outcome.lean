import CollabIDE.Runner.Limits
/-!
# The reported outcome of a run

`runWithLimits` decides the status by the reason of the abort, which the timer
can still set while `runInContainer` removes the container and the staging
directory.  The run is watched from outside: whether the program exited on its
own, with which code, and whether it was killed for the timeout before.
-/

namespace CollabIDE.Runner.Outcome

open CollabIDE.Lib.Machine CollabIDE.Shared.Languages CollabIDE.Runner.Sandbox
open CollabIDE.Runner.Limits

/-- A run and what happened in it. -/
structure Watched where
  run : Sandbox.State
  /-- The program exited on its own, and no limit had been reached. -/
  own : Bool
  /-- The driver issued the kill for the timeout, and the program had not exited. -/
  heard : Bool
  /-- The code `docker start -a` closed with. -/
  code : Option Int

def watch (spec : RunSpec) : Watched := ⟨launch spec, false, false, none⟩

/-- Note down an event that takes the run to `s`. -/
def Watched.observe (w : Watched) (s : Sandbox.State) : Event → Watched
  | .exits => { w with run := s, own := w.run.reason = none }
  | .timerFires =>
    { w with
      run := s
      heard := w.heard ||
        (w.run.kill = .notIssued ∧ s.kill = .pending ∧ w.run.container ≠ .exited : Bool) }
  | .closed code _ => { w with run := s, code := code }
  | _ => { w with run := s }

def step (w : Watched) (e : Event) : Option Watched :=
  (Sandbox.step w.run e).map fun s => w.observe s e

/-- The reported result is what happened. -/
structure Truthful (w : Watched) (result : LimitedRunResult) : Prop where
  timeout : result.status = .timeout → w.heard = true ∧
    ∃ driver, w.run.result = some (.ok driver) ∧ driver.killed = true
  own : w.own = true → result.status = .ok ∧ result.exitCode = w.code ∧ result.truncated = false

/-- Once the program has exited on its own, no limit is reached and no call fails but the removal
of the container. -/
def Own (w : Watched) (e : Event) : Prop :=
  w.own = true → match e with
    | .timerFires => False
    | .output _ chunk => w.run.sentBytes + chunk.utf8ByteSize ≤ maxOutputBytes
    | .fails _ => w.run.stage = .removing
    | _ => True

/-- If the timer is the first limit, it fires while the abort listener is registered and the program
has not exited. -/
def Heard (w : Watched) : Event → Prop
  | .timerFires => w.run.reason = none → w.run.listening = true ∧ w.run.container ≠ .exited
  | _ => True

/-- No call fails but the removal of the container. -/
def NoFailure (w : Watched) : Event → Prop
  | .fails _ => w.run.stage = .removing
  | _ => True

/-! ## The fields after a step -/

/-- The first limit that is reached is the reason for good. -/
def reasonAfter (s : Sandbox.State) : Event → Option AbortReason
  | .timerFires => s.reason.or (some .timeout)
  | .output _ chunk =>
    if s.sentBytes + chunk.utf8ByteSize ≤ maxOutputBytes then s.reason
    else s.reason.or (some .output)
  | _ => s.reason

/-- The driver's result is computed when `docker start -a` closes. -/
def resultAfter (s : Sandbox.State) : Event → Option (Except String RunResult)
  | .closed code durationMs => some (.ok ⟨if s.killed then none else code, durationMs, s.killed⟩)
  | .fails message => if s.stage = .removing then s.result else some (.error message)
  | _ => s.result

section Fields

variable {s t : Sandbox.State} {e : Event}

theorem abortWith_fields (s : Sandbox.State) (why : AbortReason) :
    (abortWith s why).reason = s.reason.or (some why) ∧ (abortWith s why).result = s.result ∧
      (abortWith s why).stage = s.stage ∧ (abortWith s why).container = s.container ∧
      (s.killed = true → (abortWith s why).killed = true) := by
  cases hreason : s.reason <;> cases hlisten : s.listening <;>
    simp [abortWith, onAbort, hreason, hlisten]

theorem onOutput_fits (stream : OutputStream) {chunk : String}
    (hfits : s.sentBytes + chunk.utf8ByteSize ≤ maxOutputBytes) :
    ∃ sent texts, onOutput s stream chunk = { s with sentBytes := sent, forwarded := texts } := by
  unfold onOutput
  by_cases hcut : s.reason = some .output
  · exact ⟨s.sentBytes, s.forwarded, if_pos hcut⟩
  · refine ⟨s.sentBytes + chunk.utf8ByteSize, s.forwarded ++ [(stream, chunk)], ?_⟩
    simp only [if_neg hcut, if_pos hfits]

theorem onOutput_over (stream : OutputStream) {chunk : String}
    (hover : ¬ s.sentBytes + chunk.utf8ByteSize ≤ maxOutputBytes) :
    ∃ sent texts, onOutput s stream chunk =
      abortWith { s with sentBytes := sent, forwarded := texts } .output := by
  by_cases hcut : s.reason = some .output
  · refine ⟨s.sentBytes, s.forwarded, ?_⟩
    rw [abortWith_of_reason .output (by simp [hcut])]
    exact if_pos hcut
  · unfold onOutput
    by_cases hrem : 0 < maxOutputBytes - s.sentBytes
    · refine ⟨s.sentBytes + (maxOutputBytes - s.sentBytes), s.forwarded ++ [(stream,
        String.ofList (cutAtBytes chunk.toList (maxOutputBytes - s.sentBytes)))], ?_⟩
      simp only [if_neg hcut, if_neg hover, if_pos hrem]
    · refine ⟨s.sentBytes, s.forwarded, ?_⟩
      simp only [if_neg hcut, if_neg hover, if_neg hrem]

theorem onOutput_fields (s : Sandbox.State) (stream : OutputStream) (chunk : String) :
    (onOutput s stream chunk).reason = reasonAfter s (.output stream chunk) ∧
      (onOutput s stream chunk).result = s.result ∧
      (onOutput s stream chunk).stage = s.stage ∧
      (onOutput s stream chunk).container = s.container := by
  by_cases hfits : s.sentBytes + chunk.utf8ByteSize ≤ maxOutputBytes
  · obtain ⟨sent, texts, hout⟩ := onOutput_fits stream hfits
    simp [hout, reasonAfter, hfits]
  · obtain ⟨sent, texts, hout⟩ := onOutput_over stream hfits
    obtain ⟨hreason, hresult, hstage, hcontainer, -⟩ :=
      abortWith_fields { s with sentBytes := sent, forwarded := texts } .output
    rw [hout]
    exact ⟨by rw [hreason]; simp only [reasonAfter, if_neg hfits], hresult, hstage, hcontainer⟩

/-- What an event leaves in the reason, the result and the driver's flag. -/
structure After (s : Sandbox.State) (e : Event) (t : Sandbox.State) : Prop where
  reason : t.reason = reasonAfter s e
  result : t.result = resultAfter s e
  /-- The flag is never cleared, and set by an abort only. -/
  killed : s.killed = true → t.killed = true
  aborted : t.killed = true → s.killed = true ∨ t.reason ≠ none

theorem after_step (h : Sandbox.step s e = some t) : After s e t := by
  cases took h with
  | output hstage hcontainer stream chunk =>
      obtain ⟨hreason, hresult, -, -⟩ := onOutput_fields s stream chunk
      by_cases hfits : s.sentBytes + chunk.utf8ByteSize ≤ maxOutputBytes
      · obtain ⟨sent, texts, hout⟩ := onOutput_fits stream hfits
        rw [hout] at hreason hresult ⊢
        exact ⟨hreason, hresult, id, .inl⟩
      · obtain ⟨sent, texts, hout⟩ := onOutput_over stream hfits
        have hfields := abortWith_fields { s with sentBytes := sent, forwarded := texts } .output
        rw [hout] at hreason hresult ⊢
        exact ⟨hreason, hresult, hfields.2.2.2.2, fun _ => .inr (by simp [hfields.1])⟩
  | timerFires harmed =>
      obtain ⟨hreason, hresult, -, -, hkilled⟩ :=
        abortWith_fields { s with timerArmed := false } .timeout
      exact ⟨hreason, hresult, hkilled, fun _ => .inr (by simp [hreason])⟩
  | failsEarly hstage hrunning message =>
      have hother : s.stage ≠ .removing := by
        rcases hstage with hstage | hstage <;> simp [hstage]
      exact ⟨rfl, (if_neg hother).symm, id, .inl⟩
  | failsLate hstage hrunning message =>
      have hother : s.stage ≠ .removing := by
        rcases hstage with hstage | hstage <;> simp [hstage]
      exact ⟨rfl, (if_neg hother).symm, id, .inl⟩
  | failsRemoving hstage hrunning message => exact ⟨rfl, (if_pos hstage).symm, id, .inl⟩
  | failsDeleting hstage hrunning message =>
      exact ⟨rfl, (if_neg (by simp [hstage])).symm, id, .inl⟩
  | _ => exact ⟨rfl, rfl, id, .inl⟩

/-- The driver has not settled: it prepares the container or streams its output. -/
def Unsettled (s : Sandbox.State) : Prop := beforeListener s.stage = true ∨ s.stage = .streaming

/-- The program has stopped and does not start again. -/
def Stopped (s : Sandbox.State) : Prop :=
  beforeListener s.stage = false ∧ s.container ≠ .created ∧ s.container ≠ .running

theorem unsettled_step (hs : s.result = none ↔ Unsettled s) (h : Sandbox.step s e = some t) :
    t.result = none ↔ Unsettled t := by
  have hlate : ∀ {stage : Stage}, s.stage = stage → beforeListener stage = false →
      stage ≠ .streaming → s.result ≠ none := by
    rintro stage rfl hbefore hstream hnone
    rcases hs.mp hnone with hearly | hstreaming
    · rw [hbefore] at hearly
      cases hearly
    · exact hstream hstreaming
  cases took h with
  | staged hstage =>
      exact iff_of_true (hs.mpr (.inl (by simp [hstage, beforeListener]))) (.inl rfl)
  | created hstage =>
      exact iff_of_true (hs.mpr (.inl (by simp [hstage, beforeListener]))) (.inl rfl)
  | copied hstage =>
      exact iff_of_true (hs.mpr (.inl (by simp [hstage, beforeListener]))) (.inr rfl)
  | output hstage hcontainer stream chunk =>
      obtain ⟨-, hresult, hstage', -⟩ := onOutput_fields s stream chunk
      rw [Unsettled, hstage', hresult]
      exact hs
  | timerFires harmed =>
      obtain ⟨-, hresult, hstage', -⟩ := abortWith_fields { s with timerArmed := false } .timeout
      rw [Unsettled, hstage', hresult]
      exact hs
  | closed hstage hrunning code durationMs => simp [Unsettled, beforeListener]
  | failsEarly hstage hrunning message => simp [Unsettled, beforeListener]
  | failsLate hstage hrunning message => simp [Unsettled, beforeListener]
  | failsRemoving hstage hrunning message =>
      simp [Unsettled, beforeListener, hlate hstage rfl (by simp)]
  | failsDeleting hstage hrunning message => simp [Unsettled, beforeListener]
  | removed hstage => simp [Unsettled, beforeListener, hlate hstage rfl (by simp)]
  | deleted hstage => simp [Unsettled, beforeListener, hlate hstage rfl (by simp)]
  | _ => exact hs

theorem stopped_step (hs : Stopped s) (h : Sandbox.step s e = some t) : Stopped t := by
  obtain ⟨hlate, hcreated, hrunning⟩ := id hs
  cases took h with
  | staged hstage => simp [hstage, beforeListener] at hlate
  | created hstage => simp [hstage, beforeListener] at hlate
  | copied hstage => simp [hstage, beforeListener] at hlate
  | starts hstage hcontainer => exact absurd hcontainer hcreated
  | output hstage hcontainer stream chunk =>
      obtain ⟨-, -, hstage', hcontainer'⟩ := onOutput_fields s stream chunk
      rw [Stopped, hstage', hcontainer']
      exact hs
  | timerFires harmed =>
      obtain ⟨-, -, hstage', hcontainer', -⟩ :=
        abortWith_fields { s with timerArmed := false } .timeout
      rw [Stopped, hstage', hcontainer']
      exact hs
  | killLands hpending hcontainer => exact absurd hcontainer hrunning
  | killMisses hpending hcontainer => exact hs
  | exits hcontainer => exact absurd hcontainer hrunning
  | removed hstage => exact ⟨rfl, by simp, by simp⟩
  | _ => exact ⟨rfl, hcreated, hrunning⟩

end Fields

/-! ## The invariant -/

section Inv

variable {w w' : Watched} {e : Event}

theorem reasonAfter_eq_none {s : Sandbox.State} (h : reasonAfter s e = none) : s.reason = none := by
  cases e <;> simp only [reasonAfter] at h
  case output stream chunk =>
    split_ifs at h
    · exact h
    · exact (Option.or_eq_none_iff.mp h).1
  case timerFires => exact (Option.or_eq_none_iff.mp h).1
  all_goals exact h

/-- What ties the watched facts to the fields of the run. -/
structure Inv (w : Watched) : Prop where
  shape : Shape w.run
  unsettled : w.run.result = none ↔ Unsettled w.run
  killed : w.run.killed = true → w.run.reason ≠ none
  own : w.own = true → Stopped w.run
  heard : w.heard = true → w.run.reason ≠ none
  flag : w.heard = true → w.run.killed = true
  recorded : w.heard = true → ∀ result, w.run.result = some (.ok result) → result.killed = true
  code : ∀ result, w.run.result = some (.ok result) → w.run.reason = none →
    result.exitCode = w.code

theorem step_eq_some : step w e = some w' ↔
    ∃ s, Sandbox.step w.run e = some s ∧ w' = w.observe s e := by
  simp only [step, Option.map_eq_some_iff, eq_comm (a := w')]

@[simp] theorem observe_run (w : Watched) (s : Sandbox.State) (e : Event) :
    (w.observe s e).run = s := by
  cases e <;> rfl

theorem own_observe {s : Sandbox.State} (h : (w.observe s e).own = true) :
    w.own = true ∨ e = .exits ∧ w.run.reason = none := by
  cases e with
  | exits => exact .inr ⟨rfl, of_decide_eq_true h⟩
  | _ => exact .inl h

/-- A kill for the timeout is issued by the listener, which sets the driver's flag. -/
theorem heard_observe {s : Sandbox.State} (hs : Sandbox.step w.run e = some s)
    (h : (w.observe s e).heard = true) :
    w.heard = true ∨ e = .timerFires ∧ w.run.listening = true ∧ s.killed = true := by
  cases e with
  | timerFires =>
      by_cases hbefore : w.heard = true
      · exact .inl hbefore
      · right
        simp only [Watched.observe, hbefore, Bool.false_or, decide_eq_true_eq] at h
        obtain ⟨hkill, hpending, -⟩ := h
        simp only [Sandbox.step, Option.ite_none_right_eq_some, Option.some.injEq] at hs
        obtain ⟨-, rfl⟩ := hs
        by_cases hreason : w.run.reason = none
        · rcases Bool.eq_false_or_eq_true w.run.listening with hlisten | hlisten
          · rw [abortWith_of_listening (s := { w.run with timerArmed := false }) _ hreason
              hlisten]
            exact ⟨rfl, hlisten, rfl⟩
          · rw [abortWith_of_not_listening (s := { w.run with timerArmed := false }) _ hreason
              hlisten] at hpending
            exact absurd (hkill.symm.trans hpending) (by simp)
        · rw [abortWith_of_reason (s := { w.run with timerArmed := false }) _ hreason]
            at hpending
          exact absurd (hkill.symm.trans hpending) (by simp)
  | _ => exact .inl h

theorem reasonAfter_ne_none {s : Sandbox.State} (h : s.reason ≠ none) : reasonAfter s e ≠ none :=
  fun hnone => h (reasonAfter_eq_none hnone)

theorem resultAfter_eq_ok {s : Sandbox.State} {driver : RunResult}
    (h : resultAfter s e = some (.ok driver)) :
    s.result = some (.ok driver) ∨ ∃ code durationMs, e = .closed code durationMs ∧
      driver = ⟨if s.killed then none else code, durationMs, s.killed⟩ := by
  cases e with
  | closed code durationMs =>
      simp only [resultAfter, Option.some.injEq, Except.ok.injEq] at h
      exact .inr ⟨code, durationMs, rfl, h.symm⟩
  | fails message =>
      simp only [resultAfter] at h
      split_ifs at h
      · exact .inl h
      · cases h
  | _ => exact .inl h

theorem code_observe {s : Sandbox.State} (hopen : ∀ code durationMs, e ≠ .closed code durationMs) :
    (w.observe s e).code = w.code := by
  cases e with
  | closed code durationMs => exact absurd rfl (hopen code durationMs)
  | _ => rfl

theorem inv_watch (spec : RunSpec) : Inv (watch spec) where
  shape := shape_launch spec
  unsettled := by
    cases hcheck : checkSpec spec <;> simp [watch, launch, hcheck, Unsettled, beforeListener]
  killed := by simp [watch, launch]
  own := by simp [watch]
  heard := by simp [watch]
  flag := by simp [watch]
  recorded := by simp [watch]
  code result := by cases hcheck : checkSpec spec <;> simp [watch, launch, hcheck]

theorem inv_step (hinv : Inv w) (h : step w e = some w') : Inv w' := by
  obtain ⟨s, hs, rfl⟩ := step_eq_some.mp h
  refine ⟨?_, ?_, ?_, ?_, ?_, ?_, ?_, ?_⟩
  · rw [observe_run]
    exact shape_step hinv.shape hs
  · rw [observe_run]
    exact unsettled_step hinv.unsettled hs
  · rw [observe_run]
    intro hkilled
    rcases (after_step hs).aborted hkilled with hbefore | hafter
    · rw [(after_step hs).reason]
      exact reasonAfter_ne_none (hinv.killed hbefore)
    · exact hafter
  · rw [observe_run]
    intro hown
    rcases own_observe hown with hbefore | ⟨rfl, -⟩
    · exact stopped_step (hinv.own hbefore) hs
    · simp only [Sandbox.step, Option.ite_none_right_eq_some, Option.some.injEq] at hs
      obtain ⟨hrunning, rfl⟩ := hs
      exact ⟨by simp [hinv.shape.running_stage hrunning, beforeListener], by simp, by simp⟩
  · rw [observe_run, (after_step hs).reason]
    intro hheard
    rcases heard_observe hs hheard with hbefore | ⟨rfl, -, -⟩
    · exact reasonAfter_ne_none (hinv.heard hbefore)
    · cases hreason : w.run.reason <;> simp [reasonAfter, hreason]
  · rw [observe_run]
    intro hheard
    rcases heard_observe hs hheard with hbefore | ⟨-, -, hflag⟩
    · exact (after_step hs).killed (hinv.flag hbefore)
    · exact hflag
  · rw [observe_run, (after_step hs).result]
    intro hheard driver hresult
    rcases heard_observe hs hheard with hbefore | ⟨rfl, hlisten, -⟩
    · rcases resultAfter_eq_ok hresult with hresult | ⟨code, durationMs, -, rfl⟩
      · exact hinv.recorded hbefore driver hresult
      · exact hinv.flag hbefore
    · have hempty := hinv.unsettled.mpr (.inr (hinv.shape.listening_iff.mp hlisten))
      have hsome : w.run.result = some (.ok driver) := hresult
      rw [hempty] at hsome
      cases hsome
  · rw [observe_run, (after_step hs).reason, (after_step hs).result]
    intro driver hresult hnone
    have hreason := reasonAfter_eq_none hnone
    rcases resultAfter_eq_ok hresult with hbefore | ⟨code, durationMs, rfl, rfl⟩
    · have hopen : ∀ code durationMs, e ≠ .closed code durationMs := by
        rintro code durationMs rfl
        simp only [Sandbox.step, Option.ite_none_right_eq_some] at hs
        rw [hinv.unsettled.mpr (.inr hs.1.1)] at hbefore
        cases hbefore
      rw [code_observe hopen]
      exact hinv.code driver hbefore hreason
    · have hfree : w.run.killed = false := by
        cases hkilled : w.run.killed with
        | false => rfl
        | true => exact absurd hreason (hinv.killed hkilled)
      simp [hfree, Watched.observe]

end Inv

/-! ## What goes wrong in one step -/

/-- The sandbox failed. -/
def Failed (w : Watched) : Prop := ∃ message, w.run.result = some (.error message)

/-- The program's own exit is still what the run will report. -/
def Clean (w : Watched) : Prop := w.own = true → w.run.reason = none ∧ ¬ Failed w

/-- A timeout is the reason, and no kill was issued for it while the program could run. -/
def Unheard (w : Watched) : Prop := w.run.reason = some .timeout ∧ w.heard = false

section Steps

variable {w w' : Watched} {e : Event}

theorem failed_step (hinv : Inv w) (h : step w e = some w') :
    Failed w' ↔ Failed w ∨ ¬ NoFailure w e := by
  obtain ⟨s, hs, rfl⟩ := step_eq_some.mp h
  simp only [Failed, observe_run, (after_step hs).result]
  cases e with
  | closed code durationMs =>
      simp only [Sandbox.step, Option.ite_none_right_eq_some] at hs
      have hnone : w.run.result = none := hinv.unsettled.mpr (.inr hs.1.1)
      simp [resultAfter, hnone, NoFailure]
  | fails message =>
      by_cases hremoving : w.run.stage = .removing
      · simp [resultAfter, NoFailure, hremoving]
      · simp [resultAfter, NoFailure, hremoving]
  | _ => simp [resultAfter, NoFailure]

theorem own_step (hinv : Inv w) (hown : w.own = true) (h : step w e = some w') :
    w'.own = true := by
  obtain ⟨s, hs, rfl⟩ := step_eq_some.mp h
  cases e with
  | exits =>
      simp only [Sandbox.step, Option.ite_none_right_eq_some] at hs
      exact absurd hs.1 (hinv.own hown).2.2
  | _ => exact hown

theorem clean_step (hinv : Inv w) (hclean : Clean w) (h : step w e = some w') :
    Clean w' ↔ Own w e := by
  obtain ⟨s, hs, rfl⟩ := step_eq_some.mp h
  have hfailed := failed_step hinv h
  have hreason : (w.observe s e).run.reason = reasonAfter w.run e := by
    rw [observe_run, (after_step hs).reason]
  by_cases hown : w.own = true
  · obtain ⟨hnone, hnofail⟩ := hclean hown
    rw [Clean, hreason, hfailed, or_iff_right hnofail,
      imp_iff_right (own_step hinv hown h)]
    cases e with
    | timerFires => simp [Own, hown, reasonAfter, hnone]
    | output stream chunk => simp [Own, hown, reasonAfter, hnone, NoFailure]
    | fails message => simp [Own, hown, reasonAfter, hnone, NoFailure]
    | _ => simp [Own, hown, reasonAfter, hnone, NoFailure]
  · refine iff_of_true (fun hown' => ?_) (fun hyes => absurd hyes hown)
    rcases own_observe hown' with hbefore | ⟨rfl, hnone⟩
    · exact absurd hbefore hown
    · refine ⟨hreason.trans hnone, fun hbad => ?_⟩
      simp only [Sandbox.step, Option.ite_none_right_eq_some] at hs
      have hempty := hinv.unsettled.mpr (.inr (hinv.shape.running_stage hs.1))
      rcases hfailed.mp hbad with ⟨message, hmessage⟩ | hcall
      · rw [hempty] at hmessage
        cases hmessage
      · exact hcall trivial

theorem clean_back (hinv : Inv w) (h : step w e = some w') (hclean : Clean w') : Clean w := by
  intro hown
  obtain ⟨hnone, hnofail⟩ := hclean (own_step hinv hown h)
  have hfailed := failed_step hinv h
  obtain ⟨s, hs, rfl⟩ := step_eq_some.mp h
  rw [observe_run, (after_step hs).reason] at hnone
  exact ⟨reasonAfter_eq_none hnone, fun hbad => hnofail (hfailed.mpr (.inl hbad))⟩

/-- Only the first limit can issue a kill. -/
theorem heard_of_reason {s : Sandbox.State} (hreason : w.run.reason ≠ none)
    (hs : Sandbox.step w.run e = some s) : (w.observe s e).heard = w.heard := by
  cases e with
  | timerFires =>
      simp only [Sandbox.step, Option.ite_none_right_eq_some, Option.some.injEq] at hs
      obtain ⟨-, rfl⟩ := hs
      rw [abortWith_of_reason (s := { w.run with timerArmed := false }) _ hreason]
      cases hkill : w.run.kill <;> simp [Watched.observe, hkill]
  | _ => rfl

theorem heard_of_first {s : Sandbox.State} (hinv : Inv w) (hreason : w.run.reason = none)
    (hs : Sandbox.step w.run .timerFires = some s) :
    (w.observe s .timerFires).heard = true ↔ Heard w .timerFires := by
  have hbefore : w.heard = false := by
    cases hheard : w.heard with
    | false => rfl
    | true => exact absurd hreason (hinv.heard hheard)
  have hkill := hinv.shape.kill_reason hreason
  simp only [Sandbox.step, Option.ite_none_right_eq_some, Option.some.injEq] at hs
  obtain ⟨-, rfl⟩ := hs
  rcases Bool.eq_false_or_eq_true w.run.listening with hlisten | hlisten
  · rw [abortWith_of_listening (s := { w.run with timerArmed := false }) _ hreason hlisten]
    simp [Watched.observe, Heard, hbefore, hkill, hlisten, hreason]
  · rw [abortWith_of_not_listening (s := { w.run with timerArmed := false }) _ hreason hlisten]
    simp [Watched.observe, Heard, hbefore, hkill, hlisten, hreason]

theorem reasonAfter_of_some {s : Sandbox.State} {why : AbortReason} (h : s.reason = some why) :
    reasonAfter s e = some why := by
  cases e <;> simp [reasonAfter, h]

theorem unheard_step (hinv : Inv w) (hnot : ¬ Unheard w) (h : step w e = some w') :
    ¬ Unheard w' ↔ Heard w e := by
  obtain ⟨s, hs, rfl⟩ := step_eq_some.mp h
  rw [Unheard, observe_run, (after_step hs).reason]
  cases hreason : w.run.reason with
  | some why =>
      rw [reasonAfter_of_some hreason, heard_of_reason (by simp [hreason]) hs]
      rw [Unheard, hreason] at hnot
      refine iff_of_true hnot ?_
      cases e with
      | timerFires => exact fun hnone => by simp [hreason] at hnone
      | _ => trivial
  | none =>
      cases e with
      | timerFires =>
          rw [← heard_of_first hinv hreason hs]
          simp [reasonAfter, hreason]
      | output stream chunk =>
          refine iff_of_true (fun hbad => ?_) trivial
          simp only [reasonAfter, hreason] at hbad
          split_ifs at hbad <;> simp at hbad
      | _ =>
          refine iff_of_true (fun hbad => ?_) trivial
          simp [reasonAfter, hreason] at hbad

theorem unheard_back (h : step w e = some w') (hnot : ¬ Unheard w') : ¬ Unheard w := by
  obtain ⟨s, hs, rfl⟩ := step_eq_some.mp h
  rintro ⟨hreason, hheard⟩
  refine hnot ⟨?_, ?_⟩
  · rw [observe_run, (after_step hs).reason, reasonAfter_of_some hreason]
  · rw [heard_of_reason (by simp [hreason]) hs, hheard]

end Steps

/-! ## Every finished run -/

section Truthful

variable {w : Watched} {elapsedMs : Int}

/-- A failed sandbox tells the truth, unless the program had exited on its own. -/
theorem truthful_of_error {message : String} (hresult : w.run.result = some (.error message)) :
    (∃ result, limitedResult w.run elapsedMs = some result ∧ Truthful w result) ↔ Clean w := by
  have hfailed : Failed w := ⟨message, hresult⟩
  simp only [limitedResult, hresult, Option.some.injEq, exists_eq_left']
  constructor
  · intro htruth hown
    cases (htruth.own hown).1
  · intro hclean
    exact ⟨fun hstatus => (by cases hstatus), fun hown => absurd hfailed (hclean hown).2⟩

/-- A reported timeout is the truth if the kill was issued in time. -/
theorem truthful_of_timeout (hinv : Inv w) {driver : RunResult}
    (hresult : w.run.result = some (.ok driver)) (htimeout : w.run.reason = some .timeout) :
    (∃ result, limitedResult w.run elapsedMs = some result ∧ Truthful w result) ↔
      Clean w ∧ ¬ Unheard w := by
  simp only [limitedResult, hresult, if_pos htimeout, Option.some.injEq, exists_eq_left']
  constructor
  · intro htruth
    refine ⟨fun hown => ?_, fun hunheard => ?_⟩
    · cases (htruth.own hown).1
    · have hheard := (htruth.timeout rfl).1
      rw [hunheard.2] at hheard
      cases hheard
  · rintro ⟨hclean, hnot⟩
    refine ⟨fun _ => ?_, fun hown => ?_⟩
    · have hheard : w.heard = true := by
        by_contra hoff
        exact hnot ⟨htimeout, by simpa using hoff⟩
      exact ⟨hheard, driver, hresult, hinv.recorded hheard driver hresult⟩
    · have hnone := (hclean hown).1
      rw [htimeout] at hnone
      cases hnone

/-- Any other result is the truth if no limit was reached behind the program's own exit. -/
theorem truthful_of_ok (hinv : Inv w) {driver : RunResult}
    (hresult : w.run.result = some (.ok driver)) (htimeout : w.run.reason ≠ some .timeout) :
    (∃ result, limitedResult w.run elapsedMs = some result ∧ Truthful w result) ↔ Clean w := by
  simp only [limitedResult, hresult, if_neg htimeout, Option.some.injEq, exists_eq_left']
  constructor
  · intro htruth hown
    have htruncated := (htruth.own hown).2.2
    refine ⟨?_, ?_⟩
    · cases hreason : w.run.reason with
      | none => rfl
      | some why =>
          cases why with
          | timeout => exact absurd hreason htimeout
          | output => simp [hreason] at htruncated
    · rintro ⟨message, hmessage⟩
      rw [hresult] at hmessage
      cases hmessage
  · intro hclean
    refine ⟨fun hstatus => (by cases hstatus), fun hown => ?_⟩
    have hnone := (hclean hown).1
    exact ⟨rfl, hinv.code driver hresult hnone, by simp [hnone]⟩

theorem truthful_iff_clean (hinv : Inv w) (hdone : w.run.stage = .finished) :
    (∃ result, limitedResult w.run elapsedMs = some result ∧ Truthful w result) ↔
      Clean w ∧ (¬ Unheard w ∨ Failed w) := by
  cases hresult : w.run.result with
  | none =>
      have hlate := hinv.unsettled.mp hresult
      simp [Unsettled, hdone, beforeListener] at hlate
  | some outcome =>
      cases outcome with
      | error message =>
          rw [truthful_of_error hresult]
          exact (and_iff_left (.inr ⟨message, hresult⟩)).symm
      | ok driver =>
          have hnofail : ¬ Failed w := by
            rintro ⟨message, hmessage⟩
            rw [hresult] at hmessage
            cases hmessage
          rw [or_iff_left hnofail]
          by_cases htimeout : w.run.reason = some .timeout
          · exact truthful_of_timeout hinv hresult htimeout
          · rw [truthful_of_ok hinv hresult htimeout]
            exact (and_iff_left fun hunheard => htimeout hunheard.1).symm

theorem step_watch_of_error {spec : RunSpec} {message : String}
    (hcheck : checkSpec spec = .error message) (e : Event) : step (watch spec) e = none := by
  cases e <;> simp [step, Sandbox.step, watch, launch, fail, hcheck]

theorem meets_noFailure_iff (spec : RunSpec) {events : List Event}
    (h : run step (watch spec) events = some w) (hsteps : events ≠ []) :
    ¬ Failed w ↔ Meets step NoFailure (watch spec) events := by
  have hfresh : ¬ Failed (watch spec) := by
    rintro ⟨message, hmessage⟩
    cases hcheck : checkSpec spec with
    | ok _ => simp [watch, launch, hcheck] at hmessage
    | error refused =>
        cases events with
        | nil => exact hsteps rfl
        | cons e events =>
            obtain ⟨t, ht, -⟩ := run_cons_eq_some.mp h
            rw [step_watch_of_error hcheck] at ht
            cases ht
  refine final_iff_meets (P := fun t => ¬ Failed t) (fun _ _ _ => inv_step)
    (fun t e t' hinv hnot ht => ?_)
    (fun t e t' hinv ht hnot hbad => hnot ((failed_step hinv ht).mpr (.inl hbad)))
    (inv_watch spec) hfresh h
  rw [failed_step hinv ht, or_iff_right hnot, not_not]

/-- A finished run reports what happened exactly if no limit was reached and no call failed after
the program had exited on its own, and, unless a call failed, the timer did not fire first while the
driver could not hear it. -/
theorem truthful_iff (spec : RunSpec) {events : List Event}
    (h : run step (watch spec) events = some w) (hdone : w.run.stage = .finished) :
    (∃ result, limitedResult w.run elapsedMs = some result ∧ Truthful w result) ↔
      Meets step Own (watch spec) events ∧
        (Meets step Heard (watch spec) events ∨ ¬ Meets step NoFailure (watch spec) events) := by
  have hclean : Clean w ↔ Meets step Own (watch spec) events :=
    final_iff_meets (fun _ _ _ => inv_step) (fun _ _ _ => clean_step) (fun _ _ _ => clean_back)
      (inv_watch spec) (fun hown => by cases hown) h
  have hheard : ¬ Unheard w ↔ Meets step Heard (watch spec) events :=
    final_iff_meets (fun _ _ _ => inv_step) (fun _ _ _ => unheard_step)
      (fun _ _ _ _ => unheard_back) (inv_watch spec) (fun hunheard => by cases hunheard.1) h
  rw [truthful_iff_clean (run_invariant (fun _ _ _ => inv_step) (inv_watch spec) h) hdone, hclean]
  refine and_congr_right fun _ => ?_
  by_cases hsteps : events = []
  · subst hsteps
    exact iff_of_true (.inl (hheard.mpr trivial)) (.inl trivial)
  · rw [hheard, ← meets_noFailure_iff spec h hsteps, not_not]

end Truthful

/-- A quick program, with the timer disarmed after the clean-up. -/
theorem truthful_iff_quick_program :
    ∃ result, limitedResult { launch helloRun with
      stage := .finished, container := .removed, timerArmed := false,
      result := some (.ok ⟨some 3, 12, false⟩) } 40 = some result ∧
        result.status = .ok ∧ result.exitCode = some 3 := by
  have hiff := @truthful_iff ⟨{ launch helloRun with
      stage := .finished, container := .removed, timerArmed := false,
      result := some (.ok ⟨some 3, 12, false⟩) }, true, false, some 3⟩ 40 helloRun
    [.staged, .created, .copied, .starts, .exits, .closed (some 3) 12, .cleaned, .cleaned] rfl rfl
  obtain ⟨result, hresult, htruth⟩ := hiff.mpr
    ⟨by simp [Meets, Own, step, Sandbox.step, watch, launch, Watched.observe], .inl (by
      simp [Meets, Heard, step, Sandbox.step, watch, launch, Watched.observe])⟩
  exact ⟨result, hresult, (htruth.own rfl).1, (htruth.own rfl).2.1⟩

/-- The program exits with code 0, and the timer fires while its container is removed: the run is
reported as a timeout that the driver never issued a kill for. -/
theorem timer_during_removal_not_truthful :
    ∃ w result, run step (watch helloRun) [.staged, .created, .copied, .starts, .exits,
        .closed (some 0) 9990, .timerFires, .cleaned, .cleaned] = some w ∧
      w.run.stage = .finished ∧ w.run.killed = false ∧ w.own = true ∧ w.code = some 0 ∧
      limitedResult w.run 10400 = some result ∧ result.status = .timeout ∧
      ¬ Truthful w result := by
  refine ⟨_, _, rfl, rfl, rfl, rfl, rfl, rfl, rfl, fun htruth => ?_⟩
  cases (htruth.timeout rfl).1

end CollabIDE.Runner.Outcome
