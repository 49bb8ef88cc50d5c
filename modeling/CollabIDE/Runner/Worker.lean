import CollabIDE.Execution.Wire
import CollabIDE.Runner.Limits
/-!
# The worker's frames

`handleRunJob` publishes every text the limiter lets through and then one exit
frame.  The limiter counts the bytes it keeps of the chunk that crosses the
cap, but publishes what those bytes decode to, and it records the cap only if
the timer was not first.
-/

namespace CollabIDE.Runner.Worker

open CollabIDE.Lib.Machine CollabIDE.Shared.Languages CollabIDE.Execution.Wire
open CollabIDE.Runner.Sandbox CollabIDE.Runner.Limits

/-- `{ type: stream, data }`. -/
def outputFrame : OutputStream × String → RunFrame
  | (.stdout, data) => .stdout data
  | (.stderr, data) => .stderr data

def exitFrame (result : LimitedRunResult) : RunFrame :=
  .exit result.status result.exitCode result.durationMs result.truncated result.message

def failed (message : String) : RunFrame := .exit .error none 0 false (some message)

/-- Where the handler is: in its `try` before and after the exit frame, in its `catch`, or past its
`finally`. -/
inductive Phase
  | trying
  | sent
  | caught
  | done
  deriving DecidableEq

structure Handler where
  run : Sandbox.State
  /-- The chunks the stream decoders handed on, in order. -/
  produced : List (OutputStream × String)
  terminalSent : Bool
  published : List RunFrame
  phase : Phase

inductive Event
  | sandbox (e : Sandbox.Event)
  /-- `runWithLimits` returns, by its own clock. -/
  | returns (elapsedMs : Int)
  /-- What follows the exit frame in the `try` throws. -/
  | throws
  | finishes

/-- Every publish succeeds. -/
def publish (h : Handler) (frame : RunFrame) : Handler :=
  { h with published := h.published ++ [frame] }

/-- Three call sites, one frame. -/
def sendExit (h : Handler) (frame : RunFrame) : Handler :=
  if h.terminalSent then h else publish { h with terminalSent := true } frame

def start (spec : RunSpec) : Handler := ⟨launch spec, [], false, [], .trying⟩

/-- The chunk an event of the sandbox brings. -/
def chunks : Sandbox.Event → List (OutputStream × String)
  | .output stream chunk => [(stream, chunk)]
  | _ => []

/-- A decoder hands on no empty text; what the limiter forwards is published at once. -/
def step (h : Handler) : Event → Option Handler
  | .sandbox e =>
    if (chunks e).any fun chunk => chunk.2 = "" then none
    else (Sandbox.step h.run e).map fun run =>
      { h with
        run
        produced := h.produced ++ chunks e
        published := h.published ++
          (run.forwarded.drop h.run.forwarded.length).map outputFrame }
  | .returns elapsedMs =>
    if h.phase = .trying ∧ h.run.stage = .finished then
      (limitedResult h.run elapsedMs).map fun result =>
        { sendExit h (exitFrame result) with phase := .sent }
    else none
  | .throws =>
    if h.phase = .sent then some { sendExit h (failed "run failed") with phase := .caught }
    else none
  | .finishes =>
    if h.phase = .sent ∨ h.phase = .caught then
      some { sendExit h (failed "run failed") with phase := .done }
    else none

/-- What the exit frame says. -/
def truncatedOf : RunFrame → Bool
  | .exit _ _ _ truncated _ => truncated
  | _ => false

/-- The frames are output and then one exit frame, no more bytes than the cap, and nothing is
missing unless the exit frame says so. -/
structure WellFormed (h : Handler) (outputs : List RunFrame) (exit : RunFrame) : Prop where
  published_eq : h.published = outputs ++ [exit]
  outputs_output : ∀ frame ∈ outputs, frame.isExit = false
  exit_exit : exit.isExit = true
  bounded : (h.published.map outputBytes).sum ≤ maxOutputBytes
  complete : truncatedOf exit = false → outputs = h.produced.map outputFrame

/-- UTF-8 bytes of some characters. -/
def byteSize (cs : List Char) : Nat := (cs.map Char.utf8Size).sum

/-- The first `n` bytes end with a character, or three bytes into one of four. -/
def CutsClean (cs : List Char) (n : Nat) : Prop :=
  ∃ front rest, cs = front ++ rest ∧
    (byteSize front = n ∨ byteSize front + 3 = n ∧ ∃ c, rest.head? = some c ∧ c.utf8Size = 4)

/-- A chunk crosses the cap only while no limit has fired, and where it is cut no character is cut
that takes up less than its replacement. -/
def CutsWell (h : Handler) : Event → Prop
  | .sandbox (.output _ chunk) =>
    h.run.reason = some .output ∨ h.run.sentBytes + chunk.utf8ByteSize ≤ maxOutputBytes ∨
      h.run.reason = none ∧ CutsClean chunk.toList (maxOutputBytes - h.run.sentBytes)
  | _ => True

/-! ## Cutting a chunk -/

@[simp] theorem byteSize_nil : byteSize [] = 0 := rfl

@[simp] theorem byteSize_cons (c : Char) (cs : List Char) :
    byteSize (c :: cs) = c.utf8Size + byteSize cs := by
  rw [byteSize, List.map_cons, List.sum_cons, byteSize]

theorem byteSize_replacement : byteSize ['\uFFFD'] = 3 := rfl

theorem utf8ByteSize_eq (text : String) : text.utf8ByteSize = byteSize text.toList := by
  rw [byteSize, ← utf8ByteSize_ofList, String.ofList_toList]

theorem le_byteSize_cutAtBytes {cs : List Char} {n : Nat} (h : n ≤ byteSize cs) :
    n ≤ byteSize (cutAtBytes cs n) := by
  induction cs generalizing n with
  | nil => exact Nat.le_trans h (Nat.zero_le _)
  | cons c cs ih =>
      rw [byteSize_cons] at h
      rw [cutAtBytes]
      split_ifs with hzero hfits
      · omega
      · have hrest := ih (n := n - c.utf8Size) (by omega)
        rw [byteSize_cons]
        omega
      · have hfour := c.utf8Size_le_four
        rw [byteSize_replacement]
        omega

theorem cutsClean_cons {c : Char} {cs : List Char} {n : Nat} (hn : c.utf8Size ≤ n) :
    CutsClean (c :: cs) n ↔ CutsClean cs (n - c.utf8Size) := by
  have hpos := c.utf8Size_pos
  constructor
  · rintro ⟨front, rest, heq, hsize⟩
    cases front with
    | nil =>
        obtain rfl : c :: cs = rest := heq
        rcases hsize with hsize | ⟨hsize, d, hd, hfour⟩
        · rw [byteSize_nil] at hsize
          omega
        · cases hd
          rw [byteSize_nil] at hsize
          omega
    | cons d front =>
        obtain ⟨rfl, rfl⟩ := List.cons.inj heq
        rw [byteSize_cons] at hsize
        exact ⟨front, rest, rfl, hsize.imp (fun h => by omega) fun h => ⟨by omega, h.2⟩⟩
  · rintro ⟨front, rest, rfl, hsize⟩
    refine ⟨c :: front, rest, rfl, ?_⟩
    rw [byteSize_cons]
    exact hsize.imp (fun h => by omega) fun h => ⟨by omega, h.2⟩

/-- Decoding the kept bytes gives no more bytes exactly if the cut is clean. -/
theorem byteSize_cutAtBytes_le_iff {cs : List Char} {n : Nat} (h : n ≤ byteSize cs) :
    byteSize (cutAtBytes cs n) ≤ n ↔ CutsClean cs n := by
  induction cs generalizing n with
  | nil =>
      obtain rfl : n = 0 := Nat.le_zero.mp h
      exact iff_of_true (Nat.le_refl 0) ⟨[], [], rfl, .inl rfl⟩
  | cons c cs ih =>
      rw [byteSize_cons] at h
      rw [cutAtBytes]
      split_ifs with hzero hfits
      · subst hzero
        exact iff_of_true (Nat.le_refl 0) ⟨[], c :: cs, rfl, .inl rfl⟩
      · rw [cutsClean_cons hfits, ← ih (by omega), byteSize_cons]
        omega
      · rw [byteSize_replacement]
        have hfour := c.utf8Size_le_four
        constructor
        · intro hthree
          exact ⟨[], c :: cs, rfl, .inr ⟨by rw [byteSize_nil]; omega, c, rfl, by omega⟩⟩
        · rintro ⟨front, rest, heq, hsize⟩
          cases front with
          | nil =>
              rw [byteSize_nil] at hsize
              omega
          | cons d front =>
              obtain ⟨rfl, rfl⟩ := List.cons.inj heq
              rw [byteSize_cons] at hsize
              omega

/-! ## What the limiter forwards -/

variable {s s' : Sandbox.State} {h h' : Handler}

theorem abortWith_cases (s : Sandbox.State) (why : AbortReason) :
    s.reason ≠ none ∧ abortWith s why = s ∨
      s.reason = none ∧ ∃ killed kill,
        abortWith s why = { s with reason := some why, killed := killed, kill := kill } := by
  by_cases hr : s.reason = none
  · refine .inr ⟨hr, ?_⟩
    by_cases hl : s.listening = true
    · rw [abortWith_of_listening why hr hl]
      exact ⟨_, _, rfl⟩
    · rw [abortWith_of_not_listening why hr (Bool.eq_false_iff.mpr hl)]
      exact ⟨_, _, rfl⟩
  · exact .inl ⟨hr, abortWith_of_reason why hr⟩

theorem step_of_no_chunk {e : Sandbox.Event} (hno : chunks e = [])
    (hstep : Sandbox.step s e = some s') :
    s'.forwarded = s.forwarded ∧ s'.sentBytes = s.sentBytes ∧
      (s'.reason = s.reason ∨ s.reason = none ∧ s'.reason = some .timeout) := by
  cases took hstep with
  | output hstage hcontainer stream chunk => cases hno
  | timerFires harmed =>
      rcases abortWith_cases { s with timerArmed := false } .timeout with
        ⟨-, heq⟩ | ⟨hnone, _, _, heq⟩
      · rw [heq]
        exact ⟨rfl, rfl, .inl rfl⟩
      · rw [heq]
        exact ⟨rfl, rfl, .inr ⟨hnone, rfl⟩⟩
  | _ => exact ⟨rfl, rfl, .inl rfl⟩

theorem step_of_finished {e : Sandbox.Event} (hstage : s.stage = .finished)
    (htimer : s.timerArmed = false) (hstep : Sandbox.step s e = some s') :
    chunks e = [] ∧ s'.stage = .finished ∧ s'.timerArmed = false ∧ s'.reason = s.reason := by
  cases took hstep with
  | killLands | killMisses | exits => exact ⟨rfl, hstage, htimer, rfl⟩
  | _ => simp_all

/-- What is forwarded of the chunk that crosses the cap. -/
def crossing (s : Sandbox.State) (stream : OutputStream) (chunk : String) :
    List (OutputStream × String) :=
  let remaining := maxOutputBytes - s.sentBytes
  if 0 < remaining then [(stream, String.ofList (cutAtBytes chunk.toList remaining))] else []

theorem onOutput_fits {stream : OutputStream} {chunk : String} (hcut : s.reason ≠ some .output)
    (hfits : s.sentBytes + chunk.utf8ByteSize ≤ maxOutputBytes) :
    onOutput s stream chunk =
      { s with
        sentBytes := s.sentBytes + chunk.utf8ByteSize
        forwarded := s.forwarded ++ [(stream, chunk)] } := by
  rw [onOutput, if_neg hcut]
  exact if_pos hfits

theorem onOutput_crosses {stream : OutputStream} {chunk : String}
    (hcut : s.reason ≠ some .output)
    (hover : ¬ s.sentBytes + chunk.utf8ByteSize ≤ maxOutputBytes) :
    ∃ killed kill, onOutput s stream chunk =
      { s with
        sentBytes := s.sentBytes + (maxOutputBytes - s.sentBytes)
        forwarded := s.forwarded ++ crossing s stream chunk
        reason := if s.reason = none then some .output else s.reason
        killed := killed
        kill := kill } := by
  have hsent : onOutput s stream chunk = abortWith { s with
      sentBytes := s.sentBytes + (maxOutputBytes - s.sentBytes)
      forwarded := s.forwarded ++ crossing s stream chunk } .output := by
    rw [onOutput, if_neg hcut]
    simp only [if_neg hover, crossing]
    split_ifs with hroom
    · rfl
    · rw [Nat.eq_zero_of_not_pos hroom, List.append_nil, Nat.add_zero]
  rw [hsent]
  rcases abortWith_cases { s with
      sentBytes := s.sentBytes + (maxOutputBytes - s.sentBytes)
      forwarded := s.forwarded ++ crossing s stream chunk } .output with
    ⟨hset, heq⟩ | ⟨hnone, killed, kill, heq⟩
  · refine ⟨s.killed, s.kill, ?_⟩
    rw [heq, if_neg hset]
  · refine ⟨killed, kill, ?_⟩
    rw [heq, if_pos hnone]

theorem crossing_length_le (stream : OutputStream) (chunk : String) :
    (crossing s stream chunk).length ≤ 1 := by
  dsimp only [crossing]
  split_ifs
  · exact Nat.le_refl 1
  · exact Nat.zero_le 1

theorem onOutput_ignored {stream : OutputStream} {chunk : String}
    (hcut : s.reason = some .output) : onOutput s stream chunk = s := if_pos hcut

theorem onOutput_appends (s : Sandbox.State) (stream : OutputStream) (chunk : String) :
    ∃ more, (onOutput s stream chunk).forwarded = s.forwarded ++ more ∧ more.length ≤ 1 ∧
      (onOutput s stream chunk).stage = s.stage ∧
      (s.reason = some .timeout → (onOutput s stream chunk).reason = some .timeout) := by
  by_cases hcut : s.reason = some .output
  · rw [onOutput_ignored hcut]
    exact ⟨[], by simp, Nat.zero_le 1, rfl, fun h => h⟩
  by_cases hfits : s.sentBytes + chunk.utf8ByteSize ≤ maxOutputBytes
  · rw [onOutput_fits hcut hfits]
    exact ⟨_, rfl, Nat.le_refl 1, rfl, fun h => h⟩
  · obtain ⟨killed, kill, heq⟩ : ∃ killed kill, onOutput s stream chunk = _ :=
      onOutput_crosses hcut hfits
    rw [heq]
    refine ⟨_, rfl, crossing_length_le stream chunk, rfl, fun htimeout => ?_⟩
    simp [htimeout]

/-- The bytes of some texts. -/
def bytes (texts : List (OutputStream × String)) : Nat :=
  ((texts.map outputFrame).map outputBytes).sum

@[simp] theorem bytes_append (a b : List (OutputStream × String)) :
    bytes (a ++ b) = bytes a + bytes b := by
  simp [bytes]

@[simp] theorem bytes_singleton (stream : OutputStream) (text : String) :
    bytes [(stream, text)] = text.utf8ByteSize := by
  cases stream <;> simp [bytes, outputFrame, outputBytes]

theorem utf8ByteSize_cut (cs : List Char) (n : Nat) :
    (String.ofList (cutAtBytes cs n)).utf8ByteSize = byteSize (cutAtBytes cs n) := by
  rw [utf8ByteSize_eq, String.toList_ofList]

/-- What is left of the cap is filled, and not overfilled if the cut is clean. -/
theorem bytes_crossing (stream : OutputStream) {chunk : String}
    (hover : ¬ s.sentBytes + chunk.utf8ByteSize ≤ maxOutputBytes) :
    maxOutputBytes - s.sentBytes ≤ bytes (crossing s stream chunk) ∧
      (bytes (crossing s stream chunk) ≤ maxOutputBytes - s.sentBytes ↔
        CutsClean chunk.toList (maxOutputBytes - s.sentBytes)) := by
  rw [utf8ByteSize_eq] at hover
  have hle : maxOutputBytes - s.sentBytes ≤ byteSize chunk.toList := by omega
  unfold crossing
  by_cases hroom : 0 < maxOutputBytes - s.sentBytes
  · rw [if_pos hroom, bytes_singleton, utf8ByteSize_cut]
    exact ⟨le_byteSize_cutAtBytes hle, byteSize_cutAtBytes_le_iff hle⟩
  · have hzero := Nat.eq_zero_of_not_pos hroom
    rw [if_neg hroom, hzero]
    exact ⟨Nat.zero_le _, iff_of_true (Nat.le_refl 0) ⟨[], chunk.toList, rfl, .inl rfl⟩⟩

/-- The counter stays below the cap, and counts no more than is forwarded. -/
theorem onOutput_budget (stream : OutputStream) (chunk : String)
    (hcap : s.sentBytes ≤ maxOutputBytes) (hcount : s.sentBytes ≤ bytes s.forwarded) :
    (onOutput s stream chunk).sentBytes ≤ maxOutputBytes ∧
      (onOutput s stream chunk).sentBytes ≤ bytes (onOutput s stream chunk).forwarded := by
  by_cases hcut : s.reason = some .output
  · rw [onOutput_ignored hcut]
    exact ⟨hcap, hcount⟩
  by_cases hfits : s.sentBytes + chunk.utf8ByteSize ≤ maxOutputBytes
  · rw [onOutput_fits hcut hfits]
    simp only [bytes_append, bytes_singleton]
    exact ⟨hfits, by omega⟩
  · obtain ⟨killed, kill, heq⟩ : ∃ killed kill, onOutput s stream chunk = _ :=
      onOutput_crosses hcut hfits
    have hfill := (bytes_crossing stream hfits).1
    rw [heq]
    simp only [bytes_append]
    exact ⟨by omega, by omega⟩

theorem unarmed_step {e : Sandbox.Event} (h : s.stage = .finished → s.timerArmed = false)
    (hno : chunks e = []) (hstep : Sandbox.step s e = some s') :
    s'.stage = .finished → s'.timerArmed = false := by
  by_cases hstage : s.stage = .finished
  · exact fun _ => (step_of_finished hstage (h hstage) hstep).2.2.1
  · cases took hstep with
    | output hstream hcontainer stream chunk => cases hno
    | timerFires harmed =>
        rcases abortWith_cases { s with timerArmed := false } .timeout with
          ⟨-, heq⟩ | ⟨-, _, _, heq⟩ <;> rw [heq] <;> exact fun _ => rfl
    | failsDeleting | deleted => exact fun _ => rfl
    | starts | killLands | killMisses | exits => exact h
    | _ =>
        intro hfinished
        cases hfinished

/-! ## The handler in every state -/

/-- What is published besides the output. -/
structure Inv (h : Handler) : Prop where
  sent_le : h.run.sentBytes ≤ maxOutputBytes
  sent_le_bytes : h.run.sentBytes ≤ bytes h.run.forwarded
  length_le : h.run.forwarded.length ≤ h.produced.length
  finished_unarmed : h.run.stage = .finished → h.run.timerArmed = false
  before_exit : h.terminalSent = false →
    h.phase = .trying ∧ h.published = h.run.forwarded.map outputFrame
  after_exit : h.terminalSent = true → h.phase ≠ .trying ∧ h.run.stage = .finished ∧
    ∃ status code ms message, h.published = h.run.forwarded.map outputFrame ++
      [.exit status code ms (decide (h.run.reason = some .output)) message]

/-- Every result says that it is truncated exactly if the cap was the first limit. -/
theorem limitedResult_truncated {elapsedMs : Int} {result : LimitedRunResult}
    (hresult : limitedResult s elapsedMs = some result) :
    result.truncated = decide (s.reason = some .output) := by
  unfold limitedResult at hresult
  split at hresult
  · cases hresult
  · split_ifs at hresult with htimeout
    · cases hresult
      simp [htimeout]
    · cases hresult
      rfl
  · cases hresult
    rfl

theorem sandbox_cases {e : Sandbox.Event} (hstep : step h (.sandbox e) = some h') :
    (∃ run, Sandbox.step h.run e = some run ∧ chunks e = [] ∧ h' = { h with run }) ∨
      ∃ stream chunk, e = .output stream chunk ∧ chunk ≠ "" ∧ h.run.stage = .streaming ∧
        ∃ more, (onOutput h.run stream chunk).forwarded = h.run.forwarded ++ more ∧
          h' = { h with
            run := onOutput h.run stream chunk
            produced := h.produced ++ [(stream, chunk)]
            published := h.published ++ more.map outputFrame } := by
  simp only [step, Option.ite_none_left_eq_some] at hstep
  obtain ⟨hne, hstep⟩ := hstep
  obtain ⟨run, hrun, rfl⟩ := Option.map_eq_some_iff.mp hstep
  by_cases hno : chunks e = []
  · obtain ⟨hforwarded, -, -⟩ := step_of_no_chunk hno hrun
    refine .inl ⟨run, hrun, hno, ?_⟩
    simp [hno, hforwarded]
  · cases took hrun with
    | output hstage hcontainer stream chunk =>
        obtain ⟨more, hmore, -⟩ := onOutput_appends h.run stream chunk
        refine .inr ⟨stream, chunk, rfl, by simpa [chunks] using hne, hstage, more, hmore, ?_⟩
        simp [chunks, hmore]
    | _ => exact absurd rfl hno

theorem inv_start (spec : RunSpec) : Inv (start spec) := by
  cases hcheck : checkSpec spec <;>
    exact ⟨by simp [start, launch], by simp [start, launch], by simp [start, launch],
      by simp [start, launch, hcheck], by simp [start, launch], by simp [start]⟩

theorem sendExit_of_sent {frame : RunFrame} (hsent : h.terminalSent = true) :
    sendExit h frame = h := if_pos hsent

theorem sendExit_of_not_sent {frame : RunFrame} (hsent : h.terminalSent = false) :
    sendExit h frame =
      { h with terminalSent := true, published := h.published ++ [frame] } := by
  simp [sendExit, hsent, publish]

theorem Inv.setPhase (hinv : Inv h) (hsent : h.terminalSent = true) {phase : Phase}
    (hphase : phase ≠ .trying) : Inv { h with phase } :=
  ⟨hinv.sent_le, hinv.sent_le_bytes, hinv.length_le, hinv.finished_unarmed,
    fun hno => absurd (hsent.symm.trans hno) (by decide),
    fun _ => ⟨hphase, (hinv.after_exit hsent).2⟩⟩

theorem Inv.sent_of_phase (hinv : Inv h) (hphase : h.phase ≠ .trying) :
    h.terminalSent = true := by
  cases hsent : h.terminalSent with
  | true => rfl
  | false => exact absurd (hinv.before_exit hsent).1 hphase

theorem inv_output {stream : OutputStream} {chunk : String} {more : List (OutputStream × String)}
    (hinv : Inv h) (hstage : h.run.stage = .streaming)
    (hmore : (onOutput h.run stream chunk).forwarded = h.run.forwarded ++ more) :
    Inv { h with
      run := onOutput h.run stream chunk
      produced := h.produced ++ [(stream, chunk)]
      published := h.published ++ more.map outputFrame } := by
  have hnotyet : h.terminalSent = false := by
    cases hsent : h.terminalSent with
    | false => rfl
    | true =>
        have hfinished := (hinv.after_exit hsent).2.1
        rw [hstage] at hfinished
        cases hfinished
  obtain ⟨hphase, hpublished⟩ := hinv.before_exit hnotyet
  have hexit : ({ h with
      run := onOutput h.run stream chunk
      produced := h.produced ++ [(stream, chunk)]
      published := h.published ++ more.map outputFrame } : Handler).published =
        (onOutput h.run stream chunk).forwarded.map outputFrame := by
    rw [hmore, List.map_append, ← hpublished]
  obtain ⟨hcap, hcount⟩ := onOutput_budget stream chunk hinv.sent_le hinv.sent_le_bytes
  obtain ⟨more', hmore', hone, hstage', -⟩ := onOutput_appends h.run stream chunk
  refine ⟨hcap, hcount, ?_, fun hfinished => ?_, fun _ => ⟨hphase, hexit⟩,
    fun hyes => absurd (hnotyet.symm.trans hyes) (by decide)⟩
  · have hlength := hinv.length_le
    simp only [hmore', List.length_append, List.length_singleton]
    omega
  · rw [hstage', hstage] at hfinished
    cases hfinished

theorem inv_step {e : Event} (hinv : Inv h) (hstep : step h e = some h') : Inv h' := by
  cases e with
  | sandbox e =>
      rcases sandbox_cases hstep with ⟨run, hrun, hno, rfl⟩ |
        ⟨stream, chunk, rfl, -, hstage, more, hmore, rfl⟩
      · obtain ⟨hforwarded, hsent, -⟩ := step_of_no_chunk hno hrun
        refine ⟨hsent ▸ hinv.sent_le, ?_, ?_, unarmed_step hinv.finished_unarmed hno hrun,
          fun hnotyet => ?_, fun hyes => ?_⟩
        · simp only [hsent, hforwarded]
          exact hinv.sent_le_bytes
        · simp only [hforwarded]
          exact hinv.length_le
        · simp only [hforwarded]
          exact hinv.before_exit hnotyet
        · obtain ⟨hphase, hstage, hpublished⟩ := hinv.after_exit hyes
          obtain ⟨-, hstage', -, hreason⟩ :=
            step_of_finished hstage (hinv.finished_unarmed hstage) hrun
          simp only [hforwarded, hreason]
          exact ⟨hphase, hstage', hpublished⟩
      · exact inv_output hinv hstage hmore
  | returns elapsedMs =>
      simp only [step, Option.ite_none_right_eq_some] at hstep
      obtain ⟨⟨hphase, hstage⟩, hstep⟩ := hstep
      obtain ⟨result, hresult, rfl⟩ := Option.map_eq_some_iff.mp hstep
      have hnotyet : h.terminalSent = false := by
        cases hsent : h.terminalSent with
        | false => rfl
        | true => exact absurd hphase (hinv.after_exit hsent).1
      rw [sendExit_of_not_sent hnotyet]
      refine ⟨hinv.sent_le, hinv.sent_le_bytes, hinv.length_le, hinv.finished_unarmed,
        fun hno => ?_, fun _ => ⟨by simp, hstage, result.status, result.exitCode,
          result.durationMs, result.message, ?_⟩⟩
      · cases hno
      change h.published ++ [exitFrame result] = _
      rw [(hinv.before_exit hnotyet).2, exitFrame, limitedResult_truncated hresult]
  | throws =>
      simp only [step, Option.ite_none_right_eq_some, Option.some.injEq] at hstep
      obtain ⟨hphase, rfl⟩ := hstep
      have hsent := hinv.sent_of_phase (by simp [hphase])
      rw [sendExit_of_sent hsent]
      exact hinv.setPhase hsent (by decide)
  | finishes =>
      simp only [step, Option.ite_none_right_eq_some, Option.some.injEq] at hstep
      obtain ⟨hphase, rfl⟩ := hstep
      have hsent := hinv.sent_of_phase (by rcases hphase with hp | hp <;> simp [hp])
      rw [sendExit_of_sent hsent]
      exact hinv.setPhase hsent (by decide)

/-! ## Runs whose chunks are cut well, and the others -/

/-- No more is published than counted, and all of it until the cap is hit. -/
structure Kept (h : Handler) : Prop where
  bytes_le : bytes h.run.forwarded ≤ h.run.sentBytes
  complete : h.run.reason ≠ some .output → h.run.forwarded = h.produced

/-- Too much is published, or the timer fired and something is missing. -/
def Lost (h : Handler) : Prop :=
  maxOutputBytes < bytes h.run.forwarded ∨ h.run.reason = some .timeout ∧
    (¬ h.run.forwarded <+: h.produced ∨ h.run.forwarded.length < h.produced.length)

theorem step_rest {e : Event} (hstep : step h e = some h')
    (he : ∀ e', e ≠ .sandbox e') : h'.run = h.run ∧ h'.produced = h.produced := by
  cases e with
  | sandbox e => exact absurd rfl (he e)
  | returns elapsedMs =>
      simp only [step, Option.ite_none_right_eq_some] at hstep
      obtain ⟨-, hstep⟩ := hstep
      obtain ⟨result, -, rfl⟩ := Option.map_eq_some_iff.mp hstep
      unfold sendExit
      split_ifs <;> exact ⟨rfl, rfl⟩
  | throws | finishes =>
      simp only [step, Option.ite_none_right_eq_some, Option.some.injEq] at hstep
      obtain ⟨-, rfl⟩ := hstep
      unfold sendExit
      split_ifs <;> exact ⟨rfl, rfl⟩

theorem kept_step {e : Event} (hkept : Kept h) (hwell : CutsWell h e)
    (hstep : step h e = some h') : Kept h' := by
  cases e with
  | sandbox e =>
      rcases sandbox_cases hstep with ⟨run, hrun, hno, rfl⟩ |
        ⟨stream, chunk, rfl, -, -, more, -, rfl⟩
      · obtain ⟨hforwarded, hsent, hreason⟩ := step_of_no_chunk hno hrun
        refine ⟨by simpa only [hforwarded, hsent] using hkept.bytes_le, fun hcut => ?_⟩
        simp only [hforwarded]
        refine hkept.complete fun hold => hcut ?_
        rcases hreason with heq | ⟨hnone, -⟩
        · exact heq.trans hold
        · rw [hnone] at hold
          cases hold
      · by_cases hcut : h.run.reason = some .output
        · simp only [onOutput_ignored hcut]
          exact ⟨hkept.bytes_le, fun hno => absurd hcut hno⟩
        by_cases hfits : h.run.sentBytes + chunk.utf8ByteSize ≤ maxOutputBytes
        · simp only [onOutput_fits hcut hfits]
          refine ⟨?_, fun _ => ?_⟩
          · simp only [bytes_append, bytes_singleton]
            exact Nat.add_le_add_right hkept.bytes_le _
          · simp only [hkept.complete hcut]
        · obtain ⟨hnone, hclean⟩ := (hwell.resolve_left hcut).resolve_left hfits
          obtain ⟨killed, kill, heq⟩ : ∃ killed kill, onOutput h.run stream chunk = _ :=
            onOutput_crosses hcut hfits
          have hfill := (bytes_crossing stream hfits).2.mpr hclean
          have hbytes := hkept.bytes_le
          simp only [heq, hnone, if_true]
          refine ⟨?_, fun hno => absurd rfl hno⟩
          simp only [bytes_append]
          omega
  | _ =>
      obtain ⟨hrun, hproduced⟩ := step_rest hstep (by simp)
      exact ⟨hrun ▸ hkept.bytes_le, hrun ▸ hproduced ▸ hkept.complete⟩

/-- A prefix that broke off, or fell behind, does not catch up one text at a time. -/
theorem missing_append {a b more : List (OutputStream × String)} {x : OutputStream × String}
    (hlength : a.length ≤ b.length) (hmore : more.length ≤ 1)
    (h : ¬ a <+: b ∨ a.length < b.length) :
    ¬ a ++ more <+: b ++ [x] ∨ (a ++ more).length < (b ++ [x]).length := by
  rcases h with h | h
  · refine .inl fun hstart => h ?_
    exact List.prefix_of_prefix_length_le ((List.prefix_append a more).trans hstart)
      (List.prefix_append b [x]) hlength
  · right
    simp only [List.length_append, List.length_singleton]
    omega

theorem lost_step {e : Event} (hinv : Inv h) (hlost : Lost h) (hstep : step h e = some h') :
    Lost h' := by
  cases e with
  | sandbox e =>
      rcases sandbox_cases hstep with ⟨run, hrun, hno, rfl⟩ |
        ⟨stream, chunk, rfl, -, -, -, -, rfl⟩
      · obtain ⟨hforwarded, -, hreason⟩ := step_of_no_chunk hno hrun
        unfold Lost
        simp only [hforwarded]
        refine hlost.imp_right fun ⟨htimeout, hmissing⟩ => ⟨?_, hmissing⟩
        rcases hreason with heq | ⟨hnone, -⟩
        · exact heq.trans htimeout
        · rw [hnone] at htimeout
          cases htimeout
      · obtain ⟨more, hmore, hone, -, htimeout⟩ := onOutput_appends h.run stream chunk
        unfold Lost
        simp only [hmore]
        refine hlost.imp (fun hbytes => ?_) fun ⟨hreason, hmissing⟩ =>
          ⟨htimeout hreason, missing_append hinv.length_le hone hmissing⟩
        rw [bytes_append]
        omega
  | _ =>
      obtain ⟨hrun, hproduced⟩ := step_rest hstep (by simp)
      unfold Lost
      rwa [hrun, hproduced]

/-- A chunk that crosses the cap after the timer, or is cut in a short character, is lost. -/
theorem lost_of_not_cutsWell {e : Event} (hinv : Inv h) (hbad : ¬ CutsWell h e)
    (hstep : step h e = some h') : Lost h' := by
  cases e with
  | sandbox e =>
      rcases sandbox_cases hstep with ⟨run, hrun, hno, rfl⟩ |
        ⟨stream, chunk, rfl, -, -, more, -, rfl⟩
      · refine absurd ?_ hbad
        cases e with
        | output stream chunk => cases hno
        | _ => trivial
      · simp only [CutsWell, not_or, not_and] at hbad
        obtain ⟨hcut, hfits, hbad⟩ := hbad
        obtain ⟨killed, kill, heq⟩ : ∃ killed kill, onOutput h.run stream chunk = _ :=
          onOutput_crosses hcut hfits
        obtain ⟨hfill, hclean⟩ := bytes_crossing stream hfits
        have hcap := hinv.sent_le
        have hcount := hinv.sent_le_bytes
        unfold Lost
        simp only [heq, bytes_append]
        by_cases hover : bytes (crossing h.run stream chunk) ≤ maxOutputBytes - h.run.sentBytes
        · -- the cut is clean, so it was the timer that came first
          have hset : h.run.reason ≠ none := fun hnone => hbad hnone (hclean.mp hover)
          have htimeout : h.run.reason = some .timeout := by
            cases hr : h.run.reason with
            | none => exact absurd hr hset
            | some why =>
                cases why with
                | timeout => rfl
                | output => exact absurd hr hcut
          refine .inr ⟨by rw [if_neg hset, htimeout], ?_⟩
          by_contra hnot
          rw [not_or, not_not] at hnot
          obtain ⟨hstart, hlength⟩ := hnot
          have hall := hstart.eq_of_length
            (Nat.le_antisymm hstart.length_le (Nat.not_lt.mp hlength))
          have hone := crossing_length_le (s := h.run) stream chunk
          have hbefore := hinv.length_le
          have hlengths := congrArg List.length hall
          simp only [List.length_append, List.length_singleton] at hlengths
          obtain ⟨-, hwhole⟩ := List.append_inj' hall
            (show (crossing h.run stream chunk).length = [(stream, chunk)].length by
              simp only [List.length_singleton]
              omega)
          rw [hwhole, bytes_singleton] at hover
          omega
        · exact .inl (by omega)
  | _ => exact absurd trivial hbad

theorem outputFrame_injective : Function.Injective outputFrame := by
  rintro ⟨a, x⟩ ⟨b, y⟩ heq
  cases a <;> cases b <;> cases heq <;> rfl

theorem isExit_outputFrame (text : OutputStream × String) : (outputFrame text).isExit = false := by
  obtain ⟨stream, data⟩ := text
  cases stream <;> rfl

/-- Of a handler that has sent its exit frame, the frames are well formed unless too much was
published or something is missing that the exit frame does not own up to. -/
theorem wellFormed_iff (hinv : Inv h) (hsent : h.terminalSent = true) :
    (∃ outputs exit, WellFormed h outputs exit) ↔ bytes h.run.forwarded ≤ maxOutputBytes ∧
      (h.run.reason ≠ some .output → h.run.forwarded = h.produced) := by
  obtain ⟨-, -, status, code, ms, message, hpublished⟩ := hinv.after_exit hsent
  have hbytes : (h.published.map outputBytes).sum = bytes h.run.forwarded := by
    rw [hpublished, List.map_append, List.sum_append]
    exact Nat.add_zero _
  constructor
  · rintro ⟨outputs, exit, hwell⟩
    refine ⟨hbytes ▸ hwell.bounded, fun hreason => ?_⟩
    obtain ⟨houtputs, hexit⟩ := List.append_inj' (hpublished.symm.trans hwell.published_eq) rfl
    have hcomplete := hwell.complete (by
      rw [← (List.cons.inj hexit).1]
      exact decide_eq_false hreason)
    rw [← houtputs] at hcomplete
    exact outputFrame_injective.list_map hcomplete
  · rintro ⟨hle, hcomplete⟩
    refine ⟨_, _, hpublished, ?_, rfl, hbytes ▸ hle, fun htruncated => ?_⟩
    · intro frame hframe
      obtain ⟨text, -, rfl⟩ := List.mem_map.mp hframe
      exact isExit_outputFrame text
    · rw [hcomplete (of_decide_eq_false htruncated)]

theorem inv_run {spec : RunSpec} {events : List Event}
    (hrun : run step (start spec) events = some h) : Inv h :=
  run_invariant (fun _ _ _ => inv_step) (inv_start spec) hrun

theorem not_wellFormed_of_lost (hinv : Inv h) (hsent : h.terminalSent = true) (hlost : Lost h) :
    ¬ ∃ outputs exit, WellFormed h outputs exit := by
  rw [wellFormed_iff hinv hsent]
  rintro ⟨hle, hcomplete⟩
  rcases hlost with hmore | ⟨htimeout, hmissing⟩
  · omega
  · have hall := hcomplete (by simp [htimeout])
    rw [hall] at hmissing
    rcases hmissing with hno | hless
    · exact hno List.prefix_rfl
    · exact absurd hless (Nat.lt_irrefl _)

/-- When the handler has settled, its frames are well formed exactly if every chunk that crossed
the cap did so before any limit had fired and was cut where its replacement fits. -/
theorem frames_wellFormed_iff (spec : RunSpec) (events : List Event)
    (hrun : run step (start spec) events = some h) (hdone : h.phase = .done) :
    (∃ outputs exit, WellFormed h outputs exit) ↔ Meets step CutsWell (start spec) events := by
  have hinv := inv_run hrun
  have hsent := hinv.sent_of_phase (by simp [hdone])
  constructor
  · intro hwell
    by_contra hnot
    obtain ⟨pre, e, post, u, v, -, hpre, hbad, hstep, hpost⟩ := exists_step_of_not_meets hrun hnot
    have hinvu := inv_run hpre
    have hlost := run_invariant (P := fun g => Inv g ∧ Lost g)
      (fun _ _ _ hg hs => ⟨inv_step hg.1 hs, lost_step hg.1 hg.2 hs⟩)
      ⟨inv_step hinvu hstep, lost_of_not_cutsWell hinvu hbad hstep⟩ hpost
    exact not_wellFormed_of_lost hinv hsent hlost.2 hwell
  · intro hmeets
    have hstart : Inv (start spec) ∧ Kept (start spec) :=
      ⟨inv_start spec, ⟨Nat.zero_le _, fun _ => rfl⟩⟩
    have hkept := run_invariant_of_meets (P := fun g => Inv g ∧ Kept g)
      (fun _ _ _ hg hok hs => ⟨inv_step hg.1 hs, kept_step hg.2 hok hs⟩) hstart hmeets hrun
    exact (wellFormed_iff hinv hsent).mpr
      ⟨Nat.le_trans hkept.2.bytes_le hinv.sent_le, hkept.2.complete⟩

/-- The program starts, and `rest` happens. -/
def started (rest : List Event) : List Event :=
  [.sandbox .staged, .sandbox .created, .sandbox .copied, .sandbox .starts] ++ rest

/-- The program ends, everything is cleaned up, and the handler returns. -/
def ended : List Event :=
  [.sandbox .exits, .sandbox (.closed (some 0) 40), .sandbox .cleaned, .sandbox .cleaned,
    .returns 41, .finishes]

/-- One byte below the cap. -/
def fullButOne : String := String.ofList (List.replicate 999999 'a')

theorem utf8ByteSize_fullButOne : fullButOne.utf8ByteSize = 999999 :=
  outputBytes_stdout_replicate ⟨rfl, rfl, rfl⟩ 999999

/-- The program of `helloRun` has been started. -/
def running : Handler :=
  { start helloRun with
    run := { launch helloRun with stage := .streaming, container := .running, listening := true } }

/-- It has printed a text one byte below the cap. -/
def printed (text : String) : Handler :=
  { running with
    run := { running.run with sentBytes := 999999, forwarded := [(.stdout, text)] }
    produced := [(.stdout, text)], published := [.stdout text] }

theorem step_running {text : String} (hsize : text.utf8ByteSize = 999999) :
    step running (.sandbox (.output .stdout text)) = some (printed text) := by
  have hnonempty : text ≠ "" := by
    rintro rfl
    cases hsize
  have hfits : running.run.sentBytes + text.utf8ByteSize ≤ maxOutputBytes := by
    rw [hsize]
    decide
  have hchunk : Sandbox.step running.run (.output .stdout text) =
      some { running.run with sentBytes := 999999, forwarded := [(.stdout, text)] } := by
    change some (onOutput running.run .stdout text) = _
    rw [onOutput_fits (by decide) hfits, hsize]
    rfl
  simp only [step, chunks, List.any_cons, List.any_nil, hnonempty, decide_false, Bool.or_false,
    Bool.false_eq_true, if_false, hchunk, Option.map_some]
  rfl

/-- The cap is reached between two characters of a chunk. -/
theorem frames_wellFormed_iff_cut :
    ∃ h, run step (start helloRun) (started (.sandbox (.output .stdout fullButOne) ::
        .sandbox (.output .stdout "ab") :: ended)) = some h ∧ h.phase = .done ∧
      h.published.head? = some (.stdout fullButOne) ∧ h.published[1]? = some (.stdout "a") ∧
      ∃ outputs exit, WellFormed h outputs exit := by
  have hsize := utf8ByteSize_fullButOne
  generalize fullButOne = text at hsize ⊢
  have hstarted : run step (start helloRun)
      [.sandbox .staged, .sandbox .created, .sandbox .copied, .sandbox .starts] = some running :=
    rfl
  have hrun : run step (printed text) (.sandbox (.output .stdout "ab") :: ended) = some _ := rfl
  have hall := run_append_eq_some.mpr
    ⟨running, hstarted, run_cons_eq_some.mpr ⟨_, step_running hsize, hrun⟩⟩
  refine ⟨_, hall, rfl, rfl, rfl, (frames_wellFormed_iff helloRun _ hall rfl).mpr ?_⟩
  have hclean : CutsClean "ab".toList (maxOutputBytes - 999999) :=
    ⟨['a'], ['b'], rfl, .inl rfl⟩
  refine (meets_append hstarted).mpr ⟨meets_of_forall (by simp [CutsWell]),
    (meets_cons (step_running hsize)).mpr ⟨.inr (.inl ?_), .inr (.inr ⟨rfl, hclean⟩),
      fun _ _ => meets_of_forall (by simp [ended, CutsWell])⟩⟩
  rw [hsize]
  decide

/-- The last byte of the cap is the first of a two-byte character, and the three bytes that replace
it are published. -/
theorem replacement_oversteps_cap :
    ∃ h, run step (start helloRun) (started (.sandbox (.output .stdout fullButOne) ::
        .sandbox (.output .stdout "é") :: ended)) = some h ∧ h.phase = .done ∧
      (h.published.map outputBytes).sum = maxOutputBytes + 2 := by
  have hsize := utf8ByteSize_fullButOne
  generalize fullButOne = text at hsize ⊢
  refine ⟨_, run_append_eq_some.mpr ⟨running, rfl, run_cons_eq_some.mpr
    ⟨_, step_running hsize, rfl⟩⟩, rfl, ?_⟩
  have hmark : "\uFFFD".utf8ByteSize = 3 := by decide
  change ([RunFrame.stdout text, .stdout "\uFFFD", _].map outputBytes).sum = _
  simp only [List.map_cons, List.map_nil, List.sum_cons, List.sum_nil, outputBytes, exitFrame,
    hsize, hmark, maxOutputBytes, Nat.reduceAdd]

end CollabIDE.Runner.Worker
