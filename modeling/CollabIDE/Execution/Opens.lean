import CollabIDE.Execution.Registry
/-!
# Opening runs at the same time

`open` waits for the SUBSCRIBE between the check of the number of entries and
the insertion of its own.  Any number of calls wait there while frames arrive,
clients attach, entries are closed and timers fire.
-/

namespace CollabIDE.Execution.Opens

open CollabIDE.Lib.Machine CollabIDE.Execution.Wire CollabIDE.Execution.Registry

/-- How far a call of `open` has come. -/
inductive Call
  | uncalled
  | subscribing
  /-- The SUBSCRIBE is acknowledged, and the call not resumed. -/
  | acknowledged
  | returned
  | thrown
  deriving DecidableEq

/-- The call for a run has the run's id. -/
structure State where
  reg : RunRegistry
  call : String → Call
  /-- The calls between the check and the insertion. -/
  underWay : List String

def State.init : State := ⟨.empty, fun _ => .uncalled, []⟩

def State.setCall (s : State) (jobId : String) (call : Call) : State :=
  { s with call := Function.update s.call jobId call }

/-- `open`, as far as the SUBSCRIBE. -/
def openCalled (s : State) (jobId projectId userId : String) : State :=
  if maxActiveRuns ≤ s.reg.entries.length then s.setCall jobId .thrown
  else
    { s with
      reg := s.reg.store jobId (newEntry jobId projectId userId)
      underWay := s.underWay ++ [jobId] }.setCall jobId .subscribing

/-- The rest of `open`. -/
def openResumed (s : State) (jobId : String) : State :=
  { s with reg := s.reg.set jobId, underWay := s.underWay.erase jobId }.setCall jobId .returned

/-- `open` throws what `subscribe` rejected with. -/
def openFailed (s : State) (jobId : String) : State :=
  { s with underWay := s.underWay.erase jobId }.setCall jobId .thrown

/-- The timer of a run fires. -/
def expire (reg : RunRegistry) (jobId : String) (entry : RunEntry) : RunRegistry :=
  close (reg.store jobId { entry with timerArmed := false }) jobId

inductive Event
  | called (jobId projectId userId : String)
  | acknowledged (jobId : String)
  | resumed (jobId : String)
  /-- The SUBSCRIBE fails, and `open` throws. -/
  | failed (jobId : String)
  | message (jobId : String) (payload : Payload)
  | attached (jobId : String) (client : Client)
  | detached (jobId : String)
  | closed (jobId : String)
  | expired (jobId : String)

/-- What happens to the registry without an `open`. -/
def onRegistry (s : State) (e : Registry.Event) : Option State :=
  (Registry.step s.reg e).map fun reg => { s with reg }

/-- A run's id is fresh, and frames come once the SUBSCRIBE is acknowledged. -/
def step (s : State) : Event → Option State
  | .called jobId projectId userId =>
    if s.call jobId = .uncalled then some (openCalled s jobId projectId userId) else none
  | .acknowledged jobId =>
    if s.call jobId = .subscribing then some (s.setCall jobId .acknowledged) else none
  | .resumed jobId => if s.call jobId = .acknowledged then some (openResumed s jobId) else none
  | .failed jobId =>
    if s.call jobId = .subscribing then some (openFailed s jobId) else none
  | .message jobId payload =>
    if s.call jobId = .acknowledged ∨ s.call jobId = .returned then
      onRegistry s (.message jobId payload)
    else none
  | .attached jobId client => onRegistry s (.attached jobId client)
  | .detached jobId => onRegistry s (.detached jobId)
  | .closed jobId => onRegistry s (.closed jobId)
  | .expired jobId =>
    match s.reg.object jobId with
    | some entry =>
      if entry.timerArmed then some { s with reg := expire s.reg jobId entry } else none
    | none => none

/-- No more entries than allowed, and neither subscriber nor timer left of an `open` that threw. -/
structure Capped (s : State) : Prop where
  entries : s.reg.entries.length ≤ maxActiveRuns
  thrown : ∀ jobId, s.call jobId = .thrown → ∀ entry, s.reg.object jobId = some entry →
    entry.subscriberOpen = false ∧ entry.timerArmed = false

/-- No SUBSCRIBE fails, and a call that gets past the check leaves room for those under way. -/
def Fits (s : State) : Event → Prop
  | .called .. => s.reg.entries.length < maxActiveRuns →
    s.reg.entries.length + s.underWay.length < maxActiveRuns
  | .failed _ => False
  | _ => True

instance (s : State) (e : Event) : Decidable (Fits s e) := by
  unfold Fits
  split <;> infer_instance

/-- Neither a new call nor a SUBSCRIBE that fails. -/
def Event.GoesOn : Event → Prop
  | .called .. | .failed _ => False
  | _ => True

/-! ## The registry's own events -/

section Registry

variable {reg reg' : RunRegistry} {jobId : String}

theorem entries_remove (reg : RunRegistry) (jobId : String) :
    (remove reg jobId).entries.Sublist reg.entries := by
  unfold remove
  cases reg.object jobId with
  | none => exact List.Sublist.refl _
  | some entry =>
      by_cases hin : jobId ∈ reg.entries
      · simp only [if_pos hin]
        exact List.filter_sublist
      · simp only [if_neg hin]
        exact List.Sublist.refl _

theorem entries_close (reg : RunRegistry) (jobId : String) :
    (close reg jobId).entries.Sublist reg.entries := by
  unfold close
  split_ifs
  · have hremove := entries_remove reg jobId
    cases hobject : (remove reg jobId).object jobId with
    | none => simpa only [hobject] using hremove
    | some entry => simpa only [hobject, store_entries] using hremove
  · exact List.Sublist.refl _

theorem entries_step {e : Registry.Event} (hopen : ∀ j p u, e ≠ .opened j p u)
    (h : Registry.step reg e = some reg') : reg'.entries.Sublist reg.entries := by
  cases e with
  | opened j p u => exact absurd rfl (hopen j p u)
  | message j payload =>
      cases hobject : reg.object j with
      | none => simp [Registry.step, hobject] at h
      | some entry =>
          simp only [Registry.step, hobject, Option.ite_none_left_eq_some,
            Option.some.injEq] at h
          rw [← h.2]
          unfold receive
          cases payload.parse with
          | none => exact List.Sublist.refl _
          | some frame =>
              dsimp only
              split_ifs
              · exact (entries_remove _ _).trans (by rw [store_entries])
              · rw [store_entries]
              · rw [store_entries]
  | attached j client =>
      simp only [Registry.step, Option.some.injEq] at h
      rw [← h]
      unfold attach
      cases reg.object j with
      | none => exact List.Sublist.refl _
      | some entry =>
          dsimp only
          split_ifs
          · exact (entries_remove _ _).trans (by rw [store_entries])
          · rw [store_entries]
          · exact List.Sublist.refl _
  | detached j =>
      simp only [Registry.step, Option.some.injEq] at h
      rw [← h]
      unfold detach
      cases reg.object j with
      | none => exact List.Sublist.refl _
      | some entry =>
          dsimp only
          split_ifs
          · rw [store_entries]
          · exact List.Sublist.refl _
  | closed j =>
      simp only [Registry.step, Option.some.injEq] at h
      rw [← h]
      exact entries_close reg j

theorem step_unregistered {e : Registry.Event} (hopen : ∀ j p u, e ≠ .opened j p u)
    (hmessage : ∀ j p, e ≠ .message j p) (hin : e.jobId ∉ reg.entries)
    (h : Registry.step reg e = some reg') : reg' = reg := by
  cases e with
  | opened j p u => exact absurd rfl (hopen j p u)
  | message j p => exact absurd rfl (hmessage j p)
  | attached j client =>
      change j ∉ reg.entries at hin
      simp only [Registry.step, attach, if_neg hin, Option.some.injEq] at h
      cases hobject : reg.object j <;> simpa [hobject] using h.symm
  | detached j =>
      change j ∉ reg.entries at hin
      simp only [Registry.step, detach, if_neg hin, Option.some.injEq] at h
      cases hobject : reg.object j <;> simpa [hobject] using h.symm
  | closed j =>
      change j ∉ reg.entries at hin
      simp only [Registry.step, close, if_neg hin, Option.some.injEq] at h
      exact h.symm

end Registry

/-! ## The invariant -/

section Inv

variable {s t : State} {e : Event}

/-- Only calls that have returned have an entry in the map; a call that waits for its SUBSCRIBE has
an open subscriber. -/
structure Inv (s : State) : Prop where
  listed : ∀ jobId ∈ s.reg.entries, s.call jobId = .returned
  uncalled : ∀ jobId, s.call jobId = .uncalled → s.reg.object jobId = none
  subscribing : ∀ jobId, s.call jobId = .subscribing → ∃ entry,
    s.reg.object jobId = some entry ∧ entry.subscriberOpen = true
  underWay : ∀ jobId, jobId ∈ s.underWay ↔
    s.call jobId = .subscribing ∨ s.call jobId = .acknowledged
  nodup : s.underWay.Nodup

theorem Inv.notMem (h : Inv s) {jobId : String} (hcall : s.call jobId ≠ .returned) :
    jobId ∉ s.reg.entries :=
  fun hin => hcall (h.listed jobId hin)

/-- What a step that no call takes leaves as it was, but for timers. -/
structure Quiet (s t : State) : Prop where
  call : t.call = s.call
  underWay : t.underWay = s.underWay
  entries : t.reg.entries.Sublist s.reg.entries
  object : ∀ jobId, s.call jobId ≠ .acknowledged → s.call jobId ≠ .returned →
    t.reg.object jobId = s.reg.object jobId ∨ ∃ entry, s.reg.object jobId = some entry ∧
      t.reg.object jobId = some { entry with timerArmed := false }

theorem Inv.quiet (h : Inv s) (hquiet : Quiet s t) : Inv t where
  listed jobId hin := by
    rw [hquiet.call]
    exact h.listed jobId (hquiet.entries.subset hin)
  uncalled jobId hcall := by
    rw [hquiet.call] at hcall
    have hnone := h.uncalled jobId hcall
    rcases hquiet.object jobId (by simp [hcall]) (by simp [hcall]) with heq | ⟨entry, hentry, -⟩
    · rw [heq, hnone]
    · rw [hnone] at hentry
      cases hentry
  subscribing jobId hcall := by
    rw [hquiet.call] at hcall
    obtain ⟨entry, hentry, hopen⟩ := h.subscribing jobId hcall
    rcases hquiet.object jobId (by simp [hcall]) (by simp [hcall]) with heq | ⟨entry', hentry', heq⟩
    · exact ⟨entry, heq.trans hentry, hopen⟩
    · rw [hentry] at hentry'
      cases hentry'
      exact ⟨_, heq, hopen⟩
  underWay := by
    rw [hquiet.underWay, hquiet.call]
    exact h.underWay
  nodup := hquiet.underWay ▸ h.nodup

/-- The entries and the calls under way are within the cap, and nothing is left of an `open` that
threw. -/
structure Bounded (s : State) : Prop where
  entries : s.reg.entries.length + s.underWay.length ≤ maxActiveRuns
  thrown : ∀ jobId, s.call jobId = .thrown → ∀ entry, s.reg.object jobId = some entry →
    entry.subscriberOpen = false ∧ entry.timerArmed = false

theorem Bounded.capped (h : Bounded s) : Capped s :=
  ⟨Nat.le_trans (Nat.le_add_right _ _) h.entries, h.thrown⟩

theorem Bounded.quiet (h : Bounded s) (hquiet : Quiet s t) : Bounded t where
  entries := by
    rw [hquiet.underWay]
    exact Nat.le_trans (Nat.add_le_add_right hquiet.entries.length_le _) h.entries
  thrown jobId hcall entry hentry := by
    rw [hquiet.call] at hcall
    rcases hquiet.object jobId (by simp [hcall]) (by simp [hcall]) with heq | ⟨entry', hentry', heq⟩
    · exact h.thrown jobId hcall entry (heq ▸ hentry)
    · rw [heq] at hentry
      cases hentry
      exact ⟨(h.thrown jobId hcall entry' hentry').1, rfl⟩

theorem quiet_onRegistry (h : Inv s) {event : Registry.Event}
    (hopen : ∀ j p u, event ≠ .opened j p u)
    (hcall : ∀ j p, event = .message j p → s.call j = .acknowledged ∨ s.call j = .returned)
    (hs : onRegistry s event = some t) : Quiet s t := by
  obtain ⟨reg, hreg, rfl⟩ := Option.map_eq_some_iff.mp hs
  refine ⟨rfl, rfl, entries_step hopen hreg, fun jobId hacknowledged hreturned => .inl ?_⟩
  by_cases hown : event.jobId = jobId
  · have hin : event.jobId ∉ s.reg.entries := h.notMem (hown ▸ hreturned)
    have hmessage : ∀ j p, event ≠ .message j p := by
      rintro j p rfl
      change j = jobId at hown
      exact (hcall j p rfl).elim (hown ▸ hacknowledged) (hown ▸ hreturned)
    rw [step_unregistered hopen hmessage hin hreg]
  · have honly := congrArg (fun reg => reg.object jobId) (only_step_of_ne hown hreg)
    simpa using honly

theorem quiet_expire (h : Inv s) {jobId : String} {entry : RunEntry}
    (hentry : s.reg.object jobId = some entry) :
    Quiet s { s with reg := expire s.reg jobId entry } := by
  refine ⟨rfl, rfl, ?_, fun other hacknowledged hreturned => ?_⟩
  · exact (entries_close _ jobId).trans (by rw [store_entries])
  · by_cases hother : jobId = other
    · subst hother
      have hin : jobId ∉ s.reg.entries := h.notMem hreturned
      refine .inr ⟨entry, hentry, ?_⟩
      simp [expire, close, hin]
    · left
      have hclosed : Registry.step (s.reg.store jobId { entry with timerArmed := false })
          (.closed jobId) = some (expire s.reg jobId entry) := rfl
      have hne : (Registry.Event.closed jobId).jobId ≠ other := hother
      have honly := congrArg (fun reg => reg.object other) (only_step_of_ne hne hclosed)
      simpa [only_store_of_ne _ hother, RunRegistry.store, Function.update_of_ne (Ne.symm hother)]
        using honly

/-- A step of one call, which leaves the other runs as they were. -/
structure Own (s t : State) (jobId : String) (call : Call) : Prop where
  call : t.call = Function.update s.call jobId call
  listed : ∀ other, other ≠ jobId → other ∈ t.reg.entries → other ∈ s.reg.entries
  object : ∀ other, other ≠ jobId → t.reg.object other = s.reg.object other

theorem Own.call_self {jobId : String} {call : Call} (hown : Own s t jobId call) :
    t.call jobId = call := by rw [hown.call, Function.update_self]

theorem Own.call_of_ne {jobId other : String} {call : Call} (hown : Own s t jobId call)
    (hne : other ≠ jobId) : t.call other = s.call other := by
  rw [hown.call, Function.update_of_ne hne]

theorem own_setCall (s : State) (jobId : String) (call : Call) :
    Own s (s.setCall jobId call) jobId call :=
  ⟨rfl, fun _ _ hin => hin, fun _ _ => rfl⟩

/-- The list of the calls under way, with or without one. -/
structure Lists (s t : State) (jobId : String) (listed : Prop) : Prop where
  self : jobId ∈ t.underWay ↔ listed
  other : ∀ other, other ≠ jobId → (other ∈ t.underWay ↔ other ∈ s.underWay)
  nodup : t.underWay.Nodup

theorem Inv.own (h : Inv s) {jobId : String} {call : Call} (hown : Own s t jobId call)
    (hlisted : jobId ∈ t.reg.entries → call = .returned) (huncalled : call ≠ .uncalled)
    (hsubscribing : call = .subscribing → ∃ entry, t.reg.object jobId = some entry ∧
      entry.subscriberOpen = true)
    (hlists : Lists s t jobId (call = .subscribing ∨ call = .acknowledged)) : Inv t where
  listed other hin := by
    by_cases hself : other = jobId
    · subst hself
      exact hown.call_self.trans (hlisted hin)
    · exact (hown.call_of_ne hself).trans (h.listed other (hown.listed other hself hin))
  uncalled other hcall := by
    by_cases hself : other = jobId
    · subst hself
      exact absurd (hown.call_self.symm.trans hcall) huncalled
    · rw [hown.object other hself]
      exact h.uncalled other ((hown.call_of_ne hself).symm.trans hcall)
  subscribing other hcall := by
    by_cases hself : other = jobId
    · subst hself
      exact hsubscribing (hown.call_self.symm.trans hcall)
    · rw [hown.object other hself]
      exact h.subscribing other ((hown.call_of_ne hself).symm.trans hcall)
  underWay other := by
    by_cases hself : other = jobId
    · subst hself
      rw [hown.call_self]
      exact hlists.self
    · rw [hown.call_of_ne hself, hlists.other other hself]
      exact h.underWay other
  nodup := hlists.nodup

theorem Bounded.own (h : Bounded s) {jobId : String} {call : Call} (hown : Own s t jobId call)
    (hentries : t.reg.entries.length + t.underWay.length ≤ maxActiveRuns)
    (hthrown : call = .thrown → t.reg.object jobId = none) : Bounded t where
  entries := hentries
  thrown other hcall entry hentry := by
    by_cases hself : other = jobId
    · subst hself
      have hnone := hthrown (hown.call_self.symm.trans hcall)
      rw [hnone] at hentry
      cases hentry
    · rw [hown.object other hself] at hentry
      exact h.thrown other ((hown.call_of_ne hself).symm.trans hcall) entry hentry

theorem own_openCalled (s : State) (jobId projectId userId : String) :
    Own s (openCalled s jobId projectId userId) jobId
      (if maxActiveRuns ≤ s.reg.entries.length then .thrown else .subscribing) := by
  unfold openCalled
  split_ifs with hfull
  · exact own_setCall s jobId .thrown
  · exact ⟨rfl, fun _ _ hin => hin, fun other hne => Function.update_of_ne hne _ _⟩

theorem own_openResumed (s : State) (jobId : String) :
    Own s (openResumed s jobId) jobId .returned := by
  refine ⟨rfl, fun other hne hin => ?_, fun _ _ => rfl⟩
  have hset : other ∈ s.reg.entries ++ [jobId] := hin
  simpa [hne] using hset

theorem entries_openCalled (s : State) (jobId projectId userId : String) :
    (openCalled s jobId projectId userId).reg.entries = s.reg.entries := by
  unfold openCalled
  split_ifs <;> rfl

theorem own_openFailed (s : State) (jobId : String) :
    Own s (openFailed s jobId) jobId .thrown :=
  ⟨rfl, fun _ _ hin => hin, fun _ _ => rfl⟩

theorem length_openResumed (s : State) (jobId : String) :
    (openResumed s jobId).reg.entries.length = s.reg.entries.length + 1 :=
  List.length_append

theorem lists_erase (h : Inv s) {jobId : String} (hunder : t.underWay = s.underWay.erase jobId) :
    Lists s t jobId False where
  self := by
    rw [hunder]
    exact iff_of_false h.nodup.not_mem_erase id
  other other hne := by rw [hunder, List.mem_erase_of_ne hne]
  nodup := hunder ▸ h.nodup.erase jobId

theorem underWay_openCalled (h : Inv s) {jobId projectId userId : String}
    (hcall : s.call jobId = .uncalled) (hroom : ¬ maxActiveRuns ≤ s.reg.entries.length) :
    (openCalled s jobId projectId userId).underWay = s.underWay ++ [jobId] ∧
      Lists s (openCalled s jobId projectId userId) jobId True := by
  have hnew : jobId ∉ s.underWay := by
    rw [h.underWay, hcall]
    simp
  have hunder : (openCalled s jobId projectId userId).underWay = s.underWay ++ [jobId] := by
    rw [openCalled, if_neg hroom]
    rfl
  refine ⟨hunder, ?_, fun other hne => ?_, ?_⟩
  · rw [hunder]
    simp
  · rw [hunder]
    simp [hne]
  · rw [hunder]
    exact List.nodup_append.mpr ⟨h.nodup, List.pairwise_singleton _ _, by
      rintro a ha b hb rfl
      exact hnew (List.mem_singleton.mp hb ▸ ha)⟩

/-! ## What one step does -/

/-- Only the calls' own steps are not quiet. -/
theorem quiet_step (h : Inv s) (hs : step s e = some t) :
    (Quiet s t ∧ Fits s e) ∨
      (∃ jobId projectId userId, e = .called jobId projectId userId ∧
        s.call jobId = .uncalled ∧ t = openCalled s jobId projectId userId) ∨
      (∃ jobId, e = .acknowledged jobId ∧ s.call jobId = .subscribing ∧
        t = s.setCall jobId .acknowledged) ∨
      (∃ jobId, e = .resumed jobId ∧ s.call jobId = .acknowledged ∧ t = openResumed s jobId) ∨
      ∃ jobId, e = .failed jobId ∧ s.call jobId = .subscribing ∧ t = openFailed s jobId := by
  cases e with
  | called jobId projectId userId =>
      obtain ⟨hcall, rfl⟩ := by
        simpa only [step, Option.ite_none_right_eq_some, Option.some.injEq] using hs
      exact .inr (.inl ⟨jobId, projectId, userId, rfl, hcall, rfl⟩)
  | acknowledged jobId =>
      obtain ⟨hcall, rfl⟩ := by
        simpa only [step, Option.ite_none_right_eq_some, Option.some.injEq] using hs
      exact .inr (.inr (.inl ⟨jobId, rfl, hcall, rfl⟩))
  | resumed jobId =>
      obtain ⟨hcall, rfl⟩ := by
        simpa only [step, Option.ite_none_right_eq_some, Option.some.injEq] using hs
      exact .inr (.inr (.inr (.inl ⟨jobId, rfl, hcall, rfl⟩)))
  | failed jobId =>
      obtain ⟨hcall, rfl⟩ := by
        simpa only [step, Option.ite_none_right_eq_some, Option.some.injEq] using hs
      exact .inr (.inr (.inr (.inr ⟨jobId, rfl, hcall, rfl⟩)))
  | message jobId payload =>
      obtain ⟨hcall, hreg⟩ := by
        simpa only [step, Option.ite_none_right_eq_some] using hs
      refine .inl ⟨quiet_onRegistry h (by rintro j p u ⟨⟩) ?_ hreg, trivial⟩
      rintro j p ⟨⟩
      exact hcall
  | attached jobId client =>
      exact .inl ⟨quiet_onRegistry h (by rintro j p u ⟨⟩) (by rintro j p ⟨⟩) hs, trivial⟩
  | detached jobId =>
      exact .inl ⟨quiet_onRegistry h (by rintro j p u ⟨⟩) (by rintro j p ⟨⟩) hs, trivial⟩
  | closed jobId =>
      exact .inl ⟨quiet_onRegistry h (by rintro j p u ⟨⟩) (by rintro j p ⟨⟩) hs, trivial⟩
  | expired jobId =>
      cases hentry : s.reg.object jobId with
      | none => simp [step, hentry] at hs
      | some entry =>
          simp only [step, hentry, Option.ite_none_right_eq_some, Option.some.injEq] at hs
          obtain ⟨-, rfl⟩ := hs
          exact .inl ⟨quiet_expire h hentry, trivial⟩

theorem inv_init : Inv State.init where
  listed _ hin := absurd hin List.not_mem_nil
  uncalled _ _ := rfl
  subscribing _ hcall := by cases hcall
  underWay _ := by simp [State.init]
  nodup := List.nodup_nil

theorem inv_step (h : Inv s) (hs : step s e = some t) : Inv t := by
  rcases quiet_step h hs with ⟨hquiet, -⟩ | ⟨jobId, projectId, userId, -, hcall, rfl⟩ |
    ⟨jobId, -, hcall, rfl⟩ | ⟨jobId, -, hcall, rfl⟩ | ⟨jobId, -, hcall, rfl⟩
  · exact h.quiet hquiet
  · have hnew : jobId ∉ s.reg.entries := h.notMem (by simp [hcall])
    have hown := own_openCalled s jobId projectId userId
    have hlisted : jobId ∈ (openCalled s jobId projectId userId).reg.entries → ∀ call : Call,
        call = .returned := by
      rw [entries_openCalled]
      exact fun hin => absurd hin hnew
    by_cases hfull : maxActiveRuns ≤ s.reg.entries.length
    · rw [if_pos hfull] at hown
      have hunder : (openCalled s jobId projectId userId).underWay = s.underWay := by
        rw [openCalled, if_pos hfull]
        rfl
      refine h.own hown (fun hin => hlisted hin _) Call.noConfusion Call.noConfusion
        ⟨?_, fun _ _ => by rw [hunder], hunder ▸ h.nodup⟩
      rw [hunder, h.underWay, hcall]
      simp
    · rw [if_neg hfull] at hown
      refine h.own hown (fun hin => hlisted hin _) Call.noConfusion (fun _ => ?_) ?_
      · refine ⟨newEntry jobId projectId userId, ?_, rfl⟩
        simp [openCalled, hfull, State.setCall, RunRegistry.store]
      · simpa using (underWay_openCalled h hcall hfull).2
  · refine h.own (own_setCall s jobId .acknowledged)
      (fun hin => absurd hin (h.notMem (by simp [hcall]))) Call.noConfusion Call.noConfusion
      ⟨?_, fun _ _ => Iff.rfl, h.nodup⟩
    exact iff_of_true ((h.underWay jobId).mpr (.inl hcall)) (.inr rfl)
  · refine h.own (own_openResumed s jobId) (fun _ => rfl) Call.noConfusion Call.noConfusion ?_
    simpa using lists_erase (t := openResumed s jobId) h rfl
  · refine h.own (own_openFailed s jobId)
      (fun hin => absurd hin (h.notMem (by simp [hcall]))) Call.noConfusion Call.noConfusion ?_
    simpa using lists_erase (t := openFailed s jobId) h rfl

/-- The bound survives a step just when the step fits: a failed SUBSCRIBE leaves the connection that
`open` made, and a call that gets past the check takes the last place only once. -/
theorem bounded_step (h : Inv s) (hbounded : Bounded s) (hs : step s e = some t) :
    Bounded t ↔ Fits s e := by
  rcases quiet_step h hs with ⟨hquiet, hfits⟩ | ⟨jobId, projectId, userId, rfl, hcall, rfl⟩ |
    ⟨jobId, rfl, hcall, rfl⟩ | ⟨jobId, rfl, hcall, rfl⟩ | ⟨jobId, rfl, hcall, rfl⟩
  · exact iff_of_true (hbounded.quiet hquiet) hfits
  · have hown := own_openCalled s jobId projectId userId
    by_cases hfull : maxActiveRuns ≤ s.reg.entries.length
    · rw [if_pos hfull] at hown
      refine iff_of_true (hbounded.own hown ?_ fun _ => ?_)
        fun hroom => absurd hfull (Nat.not_le_of_lt hroom)
      · rw [entries_openCalled, openCalled, if_pos hfull]
        exact hbounded.entries
      · simpa [openCalled, hfull, State.setCall] using h.uncalled jobId hcall
    · rw [if_neg hfull] at hown
      have hunder : (openCalled s jobId projectId userId).underWay = s.underWay ++ [jobId] :=
        (underWay_openCalled h hcall hfull).1
      have hsum : (openCalled s jobId projectId userId).reg.entries.length +
          (openCalled s jobId projectId userId).underWay.length =
            s.reg.entries.length + s.underWay.length + 1 := by
        rw [entries_openCalled, hunder, List.length_append, List.length_singleton, Nat.add_assoc]
      constructor
      · intro hnext _
        have hentries := hnext.entries
        rw [hsum] at hentries
        exact hentries
      · intro hfits
        refine hbounded.own hown ?_ Call.noConfusion
        rw [hsum]
        exact hfits (Nat.lt_of_not_le hfull)
  · exact iff_of_true
      (hbounded.own (own_setCall s jobId .acknowledged) hbounded.entries Call.noConfusion) trivial
  · refine iff_of_true (hbounded.own (own_openResumed s jobId) ?_ Call.noConfusion) trivial
    have hmem : jobId ∈ s.underWay := (h.underWay jobId).mpr (.inr hcall)
    have hpos := List.length_pos_of_mem hmem
    have herase : (openResumed s jobId).underWay.length = s.underWay.length - 1 :=
      List.length_erase_of_mem hmem
    have hentries := hbounded.entries
    rw [length_openResumed, herase]
    omega
  · refine iff_of_false (fun hnext => ?_) id
    obtain ⟨entry, hentry, hopen⟩ := h.subscribing jobId hcall
    have hclosed := (hnext.thrown jobId (own_openFailed s jobId).call_self entry hentry).1
    rw [hopen] at hclosed
    cases hclosed

/-! ## What the calls under way come to -/

theorem goesOn_fits (he : e.GoesOn) : Fits s e := by
  cases e with
  | called => exact he.elim
  | failed => exact he.elim
  | _ => trivial

theorem exists_resumed : ∀ (n : Nat) {s : State}, Inv s → s.underWay.length = n →
    ∃ rest u, (∀ e ∈ rest, e.GoesOn) ∧ run step s rest = some u ∧
      u.reg.entries.length = s.reg.entries.length + n := by
  intro n
  induction n with
  | zero => exact fun {s} _ _ => ⟨[], s, nofun, rfl, rfl⟩
  | succ n ih =>
      intro s h hlength
      obtain ⟨jobId, hmem⟩ := List.exists_mem_of_length_pos (by omega : 0 < s.underWay.length)
      -- the call is acknowledged first, if it still waits for that
      obtain ⟨front, m, hfront, hm, hcall, hunder, hentries⟩ : ∃ front m,
          (∀ e ∈ front, Event.GoesOn e) ∧ run step s front = some m ∧
            m.call jobId = .acknowledged ∧ m.underWay = s.underWay ∧
            m.reg.entries = s.reg.entries := by
        rcases (h.underWay jobId).mp hmem with hcall | hcall
        · refine ⟨[.acknowledged jobId], s.setCall jobId .acknowledged, ?_, ?_, ?_, rfl, rfl⟩
          · simp [Event.GoesOn]
          · simp [run_cons, step, hcall]
          · exact Function.update_self _ _ _
        · exact ⟨[], s, nofun, rfl, hcall, rfl, rfl⟩
      have hinv : Inv m := run_invariant (fun _ _ _ => inv_step) h hm
      have hstep : step m (.resumed jobId) = some (openResumed m jobId) := by
        simp only [step, if_pos hcall]
      have hshorter : (openResumed m jobId).underWay.length = n := by
        change (m.underWay.erase jobId).length = n
        rw [hunder, List.length_erase_of_mem hmem]
        omega
      obtain ⟨rest, u, hrest, hu, hcount⟩ := ih (inv_step hinv hstep) hshorter
      refine ⟨front ++ .resumed jobId :: rest, u, ?_, ?_, ?_⟩
      · simp only [List.mem_append, List.mem_cons]
        rintro e (he | rfl | he)
        · exact hfront e he
        · trivial
        · exact hrest e he
      · exact run_append_eq_some.mpr ⟨m, hm, run_cons_eq_some.mpr ⟨_, hstep, hu⟩⟩
      · rw [hcount, length_openResumed, hentries]
        omega

/-- The bound is what keeps the cap whatever becomes of the calls under way. -/
theorem bounded_iff (h : Inv s) :
    Bounded s ↔ ∀ rest u, (∀ e ∈ rest, e.GoesOn) → run step s rest = some u → Capped u := by
  constructor
  · intro hbounded rest u hrest hu
    have hmeets : Meets step Fits s rest := meets_of_forall fun e he _ => goesOn_fits (hrest e he)
    have hall : Inv u ∧ Bounded u := run_invariant_of_meets (P := fun s => Inv s ∧ Bounded s)
      (fun s e t hP hfits ht =>
        ⟨inv_step hP.1 ht, (bounded_step hP.1 hP.2 ht).mpr hfits⟩) ⟨h, hbounded⟩ hmeets hu
    exact hall.2.capped
  · intro hall
    obtain ⟨rest, u, hrest, hu, hcount⟩ := exists_resumed _ h rfl
    exact ⟨hcount ▸ (hall rest u hrest hu).entries, (hall [] s nofun rfl).thrown⟩

end Inv

/-! ## Every run -/

/-- The cap and the clean-up hold in every state of a run, and in every state it can be taken to
without a new call and a SUBSCRIBE that fails, just when no SUBSCRIBE fails in it and every call
that gets past the check does so with fewer than `maxActiveRuns` entries and calls under way. -/
theorem capped_iff_fits (events : List Event) {t : State}
    (h : run step State.init events = some t) :
    (∀ pre s, pre <+: events → run step State.init pre = some s →
        ∀ rest u, (∀ e ∈ rest, e.GoesOn) → run step s rest = some u → Capped u) ↔
      Meets step Fits State.init events := by
  have hinit : Bounded State.init :=
    ⟨Nat.zero_le _, fun _ _ _ hentry => by cases hentry⟩
  rw [← forall_prefix_iff_meets_beside (fun _ _ _ => inv_step) (fun _ _ _ => bounded_step) inv_init
    hinit h]
  refine forall₄_congr fun pre s hpre hs => ?_
  exact (bounded_iff (run_invariant (fun _ _ _ => inv_step) inv_init hs)).symm

/-- Two calls that wait together, a client, and the end of one run. -/
def twoOpens : List Event :=
  [.called "a" "p" "u", .called "b" "p" "v", .acknowledged "b", .acknowledged "a", .resumed "a",
    .attached "a" 0, .resumed "b", .closed "a"]

theorem capped_iff_fits_two : ∃ t, run step State.init twoOpens = some t ∧ Capped t := by
  refine ⟨_, rfl, (capped_iff_fits twoOpens rfl).mpr (by decide +kernel) twoOpens _
    (List.prefix_refl _) rfl [] _ nofun rfl⟩

/-- The ids of twenty-one runs. -/
def jobIds : List String := (List.range (maxActiveRuns + 1)).map toString

/-- A failed SUBSCRIBE leaves its connection open, even when the timer has fired; and of twenty-one
calls that wait for their SUBSCRIBE together, all are inserted. -/
theorem open_not_capped :
    (∃ t, run step State.init [.called "a" "p" "u", .failed "a", .expired "a"] = some t ∧
      ¬ Capped t) ∧
    (run step State.init (jobIds.map (Event.called · "p" "u") ++ jobIds.map .acknowledged ++
      jobIds.map .resumed)).map (fun t => t.reg.entries.length) = some 21 := by
  constructor
  · refine ⟨_, rfl, fun hcapped => ?_⟩
    have hclosed := (hcapped.thrown "a" rfl _ rfl).1
    revert hclosed
    decide
  · decide +kernel

end CollabIDE.Execution.Opens
