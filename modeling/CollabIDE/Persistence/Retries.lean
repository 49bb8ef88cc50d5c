import CollabIDE.Lib.Machine
import CollabIDE.Persistence.Turns
/-!
# Whether what is buffered gets written

`attachPersistence` until its `detach`, on a store others write to as well.
The timer is armed by updates only, and a flush turns it off before its append
is tried, so an append that fails can put its batch back where nothing will
flush it.
-/

namespace CollabIDE.Persistence.Retries

open CollabIDE.Lib.Machine CollabIDE.Persistence.Buffer CollabIDE.Persistence.DocStore
open CollabIDE.Persistence.Turns

variable {υ : Type}

/-- What the history of a buffer keeps. -/
inductive Entry
  | update
  | flush
  /-- The next batch of the chain is begun. -/
  | begins
  /-- The append of the batch that was begun last fails. -/
  | fails
  deriving DecidableEq

structure State (υ : Type) where
  store : Store υ
  buffer : DocPersistence υ
  /-- The newest entry first. -/
  log : List Entry

def State.init (store : Store υ) : State υ := ⟨store, .fresh, []⟩

inductive Event (υ : Type)
  | update (chunk : Chunk υ)
  | timerFires
  | flush
  | write (e : WriteEvent υ)
  /-- What anyone else does to the store. -/
  | others (store : Store υ)

/-- An update, and the flush it calls where it fills the buffer. -/
def logUpdate (b : DocPersistence υ) (chunk : Chunk υ) (log : List Entry) : List Entry :=
  if flushBytes ≤ b.bufferedBytes + chunk.byteLength then .flush :: .update :: log
  else .update :: log

def logWrite (log : List Entry) : WriteEvent υ → List Entry
  | .start => .begins :: log
  | .appendFails _ => .fails :: log
  | _ => log

def step [DecidableEq υ] (docId : String) (s : State υ) : Event υ → Option (State υ)
  | .update chunk =>
    some { s with buffer := onUpdate s.buffer chunk, log := logUpdate s.buffer chunk s.log }
  | .timerFires => (timerFires s.buffer).map fun b => { s with buffer := b, log := .flush :: s.log }
  | .flush => some { s with buffer := flush s.buffer, log := .flush :: s.log }
  | .write e =>
    (writeStep docId s.store s.buffer e).map fun p => ⟨p.1, p.2, logWrite s.log e⟩
  | .others store => some { s with store }

/-- What is buffered has a timer or a flush that has not run. -/
def Scheduled (b : DocPersistence υ) : Prop :=
  b.buffered ≠ [] → b.timer = true ∨ b.chain ≠ []

/-! ## The condition -/

/-- How many flushes are behind the batch that was begun last. -/
def queued (log : List Entry) : Nat := log.count .flush - log.count .begins

/-- What came since the last flush but `n`. -/
def since : Nat → List Entry → List Entry
  | _, [] => []
  | 0, .flush :: _ => []
  | n + 1, .flush :: log => .flush :: since n log
  | n, e :: log => e :: since n log

/-- An append fails only if an update or a flush came since its batch was captured; and where an
append has failed since the last flush and no update has come, the batch begun next is not the last
one queued. -/
def Rescued (s : State υ) : Event υ → Prop
  | .write (.appendFails _) =>
    .update ∈ since (queued s.log) s.log ∨ .flush ∈ since (queued s.log) s.log
  | .write .start => .fails ∈ since 0 s.log → .update ∉ since 0 s.log → 1 < queued s.log
  | _ => True

instance (s : State υ) (e : Event υ) : Decidable (Rescued s e) := by
  unfold Rescued
  split
  · infer_instance
  · infer_instance
  · infer_instance

section Since

variable {log : List Entry} {n : Nat}

@[simp] theorem since_flush : since 0 (.flush :: log) = [] := rfl

@[simp] theorem since_update : since n (.update :: log) = .update :: since n log := by
  cases n <;> rfl

@[simp] theorem since_begins : since n (.begins :: log) = .begins :: since n log := by
  cases n <;> rfl

@[simp] theorem since_fails : since n (.fails :: log) = .fails :: since n log := by
  cases n <;> rfl

theorem flush_not_mem_since : .flush ∉ since 0 log := by
  induction log with
  | nil => exact List.not_mem_nil
  | cons e log ih => cases e <;> simp [ih]

theorem flush_mem_since (h : .flush ∈ log) : .flush ∈ since (n + 1) log := by
  induction log with
  | nil => cases h
  | cons e log ih => cases e <;> simp_all [since]

end Since

/-! ## What the history says of the buffer -/

structure Accounted (s : State υ) : Prop where
  timer : s.buffer.timer = true ↔ .update ∈ since 0 s.log
  buffered : s.buffer.buffered ≠ [] ↔ .update ∈ since 0 s.log ∨ .fails ∈ since 0 s.log
  chain : s.buffer.chain.length + s.log.count .begins = s.log.count .flush

theorem accounted_init (store : Store υ) : Accounted (State.init store) :=
  ⟨by simp [State.init, DocPersistence.fresh, since],
    by simp [State.init, DocPersistence.fresh, since], rfl⟩

section Steps

variable {docId : String} {s t : State υ} {e : Event υ}

theorem Accounted.queued (h : Accounted s) : queued s.log = s.buffer.chain.length := by
  have hchain := h.chain
  rw [Retries.queued]
  omega

theorem accounted_flush (h : Accounted s) :
    Accounted { s with buffer := flush s.buffer, log := .flush :: s.log } where
  timer := by simp [flush]
  buffered := by simp [flush]
  chain := by
    have hchain := h.chain
    simp only [flush, List.length_append, List.length_singleton, List.count_cons_self,
      List.count_cons_of_ne (by decide : Entry.flush ≠ .begins)]
    omega

theorem accounted_onUpdate (h : Accounted s) (chunk : Chunk υ) :
    Accounted
      { s with buffer := onUpdate s.buffer chunk, log := logUpdate s.buffer chunk s.log } := by
  have hchain := h.chain
  unfold onUpdate logUpdate
  by_cases hfull : flushBytes ≤ s.buffer.bufferedBytes + chunk.byteLength
  · simp only [if_pos hfull]
    exact ⟨by simp [flush], by simp [flush], by simp [flush]; omega⟩
  · simp only [if_neg hfull]
    exact ⟨by simp, by simp, by simpa using hchain⟩

theorem onUpdate_cases (b : DocPersistence υ) (chunk : Chunk υ) :
    (onUpdate b chunk).buffered = [] ∨ (onUpdate b chunk).timer = true := by
  unfold onUpdate
  by_cases hfull : flushBytes ≤ b.bufferedBytes + chunk.byteLength
  · exact .inl (by simp only [if_pos hfull, flush])
  · exact .inr (by simp only [if_neg hfull])

/-- Since a batch was captured an update or a flush has come just when a timer is armed or a flush
is queued. -/
theorem came_since_iff (hs : Accounted s) :
    .update ∈ since (queued s.log) s.log ∨ .flush ∈ since (queued s.log) s.log ↔
      s.buffer.timer = true ∨ s.buffer.chain ≠ [] := by
  rw [hs.queued]
  cases hchain : s.buffer.chain with
  | nil =>
      rw [List.length_nil, hs.timer]
      exact or_congr_right (iff_of_false flush_not_mem_since (not_not_intro rfl))
  | cons batch rest =>
      have hcount := hs.chain
      rw [hchain, List.length_cons] at hcount
      have hflush : .flush ∈ s.log := List.count_pos_iff.mp (by omega)
      exact iff_of_true (.inr (flush_mem_since hflush)) (.inr (List.cons_ne_nil _ _))

variable [DecidableEq υ]

/-- The forms of a step. -/
inductive Took (docId : String) (s : State υ) : Event υ → State υ → Prop
  | update {chunk : Chunk υ} :
    Took docId s (.update chunk)
      { s with buffer := onUpdate s.buffer chunk, log := logUpdate s.buffer chunk s.log }
  | timerFires :
    Took docId s .timerFires { s with buffer := flush s.buffer, log := .flush :: s.log }
  | flush : Took docId s .flush { s with buffer := flush s.buffer, log := .flush :: s.log }
  | write {e : WriteEvent υ} {store : Store υ} {buffer : DocPersistence υ}
      (hwrote : Wrote docId s.store s.buffer e store buffer) :
    Took docId s (.write e) ⟨store, buffer, logWrite s.log e⟩
  | others {store : Store υ} : Took docId s (.others store) { s with store }

theorem took (h : step docId s e = some t) : Took docId s e t := by
  cases e with
  | update chunk =>
      cases h
      exact .update
  | timerFires =>
      simp only [step, Option.map_eq_some_iff, timerFires, Option.ite_none_right_eq_some,
        Option.some.injEq] at h
      obtain ⟨_, ⟨-, rfl⟩, rfl⟩ := h
      exact .timerFires
  | flush =>
      cases h
      exact .flush
  | write e =>
      obtain ⟨p, hwrite, rfl⟩ := Option.map_eq_some_iff.mp h
      exact .write (wrote hwrite)
  | others store =>
      cases h
      exact .others

theorem accounted_step (hs : Accounted s) (h : step docId s e = some t) : Accounted t := by
  have hbegins : ∀ {batch : List (Chunk υ)} {rest : List (List (Chunk υ))},
      s.buffer.chain = batch :: rest →
        rest.length + (Entry.begins :: s.log).count .begins =
          (Entry.begins :: s.log).count .flush := by
    intro batch rest hrest
    have hchain := hs.chain
    rw [hrest, List.length_cons] at hchain
    rw [List.count_cons_self, List.count_cons_of_ne (by decide)]
    omega
  cases took h with
  | update => exact accounted_onUpdate hs _
  | timerFires => exact accounted_flush hs
  | flush => exact accounted_flush hs
  | others => exact ⟨hs.timer, hs.buffered, hs.chain⟩
  | write hwrote =>
      cases hwrote with
      | skip _ hchain =>
          exact ⟨by simpa [logWrite, DocPersistence.settle] using hs.timer,
            by simpa [logWrite, DocPersistence.settle] using hs.buffered, hbegins hchain⟩
      | start _ _ hchain =>
          exact ⟨by simpa [logWrite, DocPersistence.settle] using hs.timer,
            by simpa [logWrite, DocPersistence.settle] using hs.buffered, hbegins hchain⟩
      | appendFails =>
          exact ⟨by simpa [logWrite, DocPersistence.settle] using hs.timer,
            by simp [logWrite, DocPersistence.settle],
            by simpa [logWrite, DocPersistence.settle] using hs.chain⟩
      | _ => exact ⟨hs.timer, hs.buffered, hs.chain⟩

theorem scheduled_step (hs : Accounted s) (hscheduled : Scheduled s.buffer)
    (h : step docId s e = some t) : Scheduled t.buffer ↔ Rescued s e := by
  cases took h with
  | update =>
      exact iff_of_true (fun hne => .inl ((onUpdate_cases s.buffer _).resolve_left hne)) trivial
  | timerFires => exact iff_of_true (fun hne => absurd rfl hne) trivial
  | flush => exact iff_of_true (fun hne => absurd rfl hne) trivial
  | others => exact iff_of_true hscheduled trivial
  | write hwrote =>
      have hstart : ∀ {batch : List (Chunk υ)} {rest : List (List (Chunk υ))},
          s.buffer.chain = batch :: rest →
            ((s.buffer.buffered ≠ [] → s.buffer.timer = true ∨ rest ≠ []) ↔
              (.fails ∈ since 0 s.log → .update ∉ since 0 s.log → 1 < queued s.log)) := by
        intro batch rest hchain
        have hcount : 1 < queued s.log ↔ rest ≠ [] := by
          rw [hs.queued, hchain, List.length_cons, ← List.length_pos_iff]
          omega
        rw [hcount, hs.buffered, hs.timer]
        constructor
        · exact fun hkept hfails hnone => (hkept (.inr hfails)).resolve_left hnone
        · rintro hqueued (hupdate | hfails)
          · exact .inl hupdate
          · exact or_iff_not_imp_left.mpr (hqueued hfails)
      cases hwrote with
      | skip _ hchain => exact hstart hchain
      | start _ _ hchain => exact hstart hchain
      | appendFails =>
          exact ⟨fun h => (came_since_iff hs).mpr (h (List.cons_ne_nil _ _)),
            fun h _ => (came_since_iff hs).mp h⟩
      | _ => exact iff_of_true hscheduled trivial

end Steps

/-- All along a run whatever is buffered is scheduled to be written just when every append that
fails is made up for: by an update or a flush that came since its batch was captured, and by another
one before the batches that were queued have begun. -/
theorem scheduled_iff_rescued [DecidableEq υ] {docId : String} {store : Store υ}
    {events : List (Event υ)} {u : State υ}
    (h : run (step docId) (State.init store) events = some u) :
    (∀ pre v, pre <+: events → run (step docId) (State.init store) pre = some v →
        Scheduled v.buffer) ↔
      Meets (step docId) Rescued (State.init store) events := by
  have hinit : Scheduled (State.init store).buffer := fun hne => absurd rfl hne
  exact forall_prefix_iff_meets_beside (P := fun s => Scheduled s.buffer)
    (fun _ _ _ => accounted_step) (fun _ _ _ => scheduled_step) (accounted_init store) hinit h

def emptyStore : Store Nat := ⟨Tables.empty, 1, 0⟩

/-- The append fails after the next keystroke, whose timer writes both. -/
theorem scheduled_iff_rescued_typing :
    let events : List (Event Nat) := [.update ⟨{1}, 10⟩, .timerFires, .write .start,
      .update ⟨{2}, 20⟩, .write (.appendFails 12), .timerFires]
    (run (step "p:f") (State.init emptyStore) events).isSome = true ∧
      ∀ pre v, pre <+: events → run (step "p:f") (State.init emptyStore) pre = some v →
        Scheduled v.buffer := by
  intro events
  have hrun : (run (step "p:f") (State.init emptyStore) events).isSome = true := rfl
  obtain ⟨u, hu⟩ := Option.isSome_iff_exists.mp hrun
  exact ⟨hrun, (scheduled_iff_rescued hu).mpr (by decide +kernel)⟩

/-- The append of the last edit fails, and nobody types on. -/
theorem not_scheduled_afterFailure :
    ¬ ∀ (docId : String) (store : Store Nat) (events : List (Event Nat)) (u : State Nat),
      run (step docId) (State.init store) events = some u → Scheduled u.buffer := by
  intro hclaim
  have hrun : (run (step "p:f") (State.init emptyStore) [.update ⟨{1}, 10⟩, .timerFires,
      .write .start, .write (.appendFails 12)]).map (fun u =>
        (u.buffer.buffered.length, u.buffer.timer, u.buffer.chain)) = some (1, false, []) := rfl
  obtain ⟨u, hu, hfields⟩ := Option.map_eq_some_iff.mp hrun
  simp only [Prod.mk.injEq] at hfields
  obtain ⟨hbuffered, htimer, hchain⟩ := hfields
  have hne : u.buffer.buffered ≠ [] := List.ne_nil_of_length_eq_add_one hbuffered
  rcases hclaim _ _ _ u hu hne with harmed | hqueued
  · simp [htimer] at harmed
  · exact hqueued hchain

end CollabIDE.Persistence.Retries
