import CollabIDE.Search.SearchRuns
/-!
# The end of a project search

Whether it is cancelled or not, a run of the effect comes to its end: every file
and every worker has a weight that its steps use up, and until the end one of
its steps is possible.
-/

namespace CollabIDE.Search.ProjectSearch

open CollabIDE.Lib.Machine CollabIDE.Search.Strings

variable {C : Casing} {e : Effect} {cache : List (Text × Text)} {s : State} {i : Nat}

section Bound

variable (φ : Effect → Nat) (top : Nat) (p : Event → Bool)

/-- The bound of the run at `i`, or `top` before it has started. -/
def boundAt (φ : Effect → Nat) (top i : Nat) (s : State) : Nat := (s.effects[i]?.map φ).getD top

theorem boundAt_cleanup (hcancel : ∀ e : Effect, φ { e with cancelled := true } = φ e) :
    ((cleanup s)[i]?.map φ).getD top = boundAt φ top i s := by
  unfold cleanup boundAt
  split
  · next j hj =>
      rw [List.getElem?_modify]
      cases s.effects[i]? with
      | none => rfl
      | some e =>
          by_cases hij : j = i
          · simp [hij, hcancel]
          · simp [hij]
  · rfl

/-- A bound that the steps of a run lower, that its start keeps under `top` and that does not depend
on its being cancelled. -/
theorem boundAt_step (hcancel : ∀ e : Effect, φ { e with cancelled := true } = φ e)
    (hbegin : ∀ cache projectId trimmed nodes, φ (begin C cache projectId trimmed nodes) ≤ top)
    (hmoves : ∀ {s t ev e e'}, ev.about = some i →
      Moves C s t i (if ev.isResponse then 1 else 0) e e' → φ e' + (if p ev then 1 else 0) ≤ φ e)
    (hother : ∀ ev : Event, ev.about ≠ some i → p ev = false) {ev : Event}
    (h : step C s ev = some t) :
    boundAt φ top i t + (if p ev then 1 else 0) ≤ boundAt φ top i s := by
  cases habout : ev.about with
  | some j =>
      obtain ⟨e, e', he, hstep⟩ := moves_step habout h
      by_cases hij : j = i
      · subst hij
        have hlow := hmoves habout hstep
        rw [boundAt, boundAt, hstep.effects, he,
          List.getElem?_set_self (List.getElem?_eq_some_iff.mp he).1]
        exact hlow
      · rw [boundAt, boundAt, hstep.effects, List.getElem?_set_ne hij, hother ev
          (by rw [habout]; exact fun heq => hij (Option.some.inj heq))]
        exact Nat.le_refl _
  | none =>
      rw [hother ev (by rw [habout]; exact (Option.some_ne_none i).symm), if_neg Bool.false_ne_true,
        Nat.add_zero]
      refine le_of_le_of_eq ?_ (boundAt_cleanup φ top hcancel)
      cases ev with
      | settle | resume | finish => cases habout
      | unmount =>
          rw [step, Option.ite_none_right_eq_some] at h
          obtain rfl := Option.some.inj h.2
          exact Nat.le_refl _
      | effect projectId debounced enabled nodes =>
          rw [step, Option.ite_none_right_eq_some] at h
          obtain rfl := Option.some.inj h.2
          unfold runEffect boundAt
          dsimp only
          split
          · rcases Nat.lt_trichotomy i (cleanup s).length with hlt | rfl | hlt
            · rw [List.getElem?_append_left hlt]
            · rw [List.getElem?_concat_length, List.getElem?_eq_none (Nat.le_refl _)]
              exact hbegin _ _ _ _
            · rw [List.getElem?_eq_none (by rw [List.length_append, List.length_singleton]; omega),
                List.getElem?_eq_none (Nat.le_of_lt hlt)]
          · exact Nat.le_refl _

end Bound

theorem weight_launch {a b : Nat} {f : Worker → Nat} (hf : ∀ w, f w ≤ b) (hb : b ≤ a)
    (hreturned : f .returned = 0) (n : Nat) (e : Effect) :
    (launch cache n e).weight a f ≤ e.weight a f := by
  induction n generalizing e with
  | zero =>
      rw [launch]
  | succ n ih =>
      rw [launch]
      refine (ih _).trans ?_
      obtain ⟨cursor, hframe⟩ := pull_frame cache e
      have hpull := weight_pull cache e hf hb hreturned
      have hworkers : (pull cache e).1.workers = e.workers := by rw [hframe]
      rw [Effect.weight, Effect.weight, hworkers, List.map_append, List.sum_append]
      change a * (pull cache e).1.left + (_ + (_ + 0)) ≤ _
      omega

theorem weight_begin {a b : Nat} {f : Worker → Nat} (hf : ∀ w, f w ≤ b) (hb : b ≤ a)
    (hreturned : f .returned = 0) (projectId trimmed : Text) (nodes : List FlatNode) :
    (begin C cache projectId trimmed nodes).weight a f ≤ a * MAX_FILES_SCANNED := by
  refine (weight_launch hf hb hreturned _ _).trans ?_
  rw [Effect.weight, List.map_nil, List.sum_nil, Nat.add_zero]
  refine Nat.mul_le_mul_left a ?_
  rw [Effect.left, Effect.targets, List.length_take]
  exact (Nat.sub_le _ _).trans (Nat.min_le_left _ _)

theorem finished_begin (projectId trimmed : Text) (nodes : List FlatNode) :
    (begin C cache projectId trimmed nodes).finished = false := by
  unfold begin
  obtain ⟨cursor, workers, hlaunch⟩ := launch_frame cache CONCURRENCY
    { projectId, trimmed
      candidates := nodes.filter fun node => !node.isDir && isContentSearchable C node.path
      cancelled := false, scanned := 0, skipped := _, hits := [], capped := false, error := none
      lastFlush := 0, cursor := 0, workers := [], finished := false, handed := [] }
  rw [hlaunch]

/-- Until a run of the effect has come to its end one of its steps is possible. -/
theorem exists_step (he : s.effects[i]? = some e) (hunfinished : e.finished = false) :
    ∃ ev t, ev.about = some i ∧ step C s ev = some t := by
  by_cases hall : e.workers.all (· = .returned) = true
  · have hstep : (finish s i 0 e).isSome = true := by
      rw [finish, hunfinished, hall]
      by_cases hcancelled : e.cancelled = true <;> simp [hcancelled]
    obtain ⟨t, ht⟩ := Option.isSome_iff_exists.mp hstep
    exact ⟨.finish i 0, t, rfl, by rw [step, he]; exact ht⟩
  · obtain ⟨w, hw, hne⟩ : ∃ w ∈ e.workers, w ≠ .returned := by simpa using hall
    obtain ⟨k, hk⟩ := List.getElem?_of_mem hw
    cases w with
    | returned => exact absurd rfl hne
    | reading url node =>
        have hstep : (settle s i k .notFound e).isSome = true := by
          rw [settle, hk]
          rfl
        obtain ⟨t, ht⟩ := Option.isSome_iff_exists.mp hstep
        exact ⟨.settle i k .notFound, t, rfl, by rw [step, he]; exact ht⟩
    | resuming node content =>
        have hstep : (resume C s i k 0 e).isSome = true := by
          rw [resume, hk]
          by_cases hcancelled : e.cancelled = true <;> simp [hcancelled]
        obtain ⟨t, ht⟩ := Option.isSome_iff_exists.mp hstep
        exact ⟨.resume i k 0, t, rfl, by rw [step, he]; exact ht⟩

/-- A run of the effect, cancelled or not, comes to its end: it takes no more than three steps a
file and one, with no more than one response a file, and is stuck nowhere before. -/
theorem run_ends {events : List Event} (h : run (step C) start events = some s) (i : Nat) :
    events.countP (fun ev => ev.about = some i) ≤ 3 * MAX_FILES_SCANNED + 1 ∧
    events.countP (fun ev => ev.about = some i && ev.isResponse) ≤ MAX_FILES_SCANNED ∧
    ∀ e, s.effects[i]? = some e → e.finished = false →
      ∃ ev t, ev.about = some i ∧ step C s ev = some t := by
  have hsteps : events.countP (fun ev => ev.about = some i) ≤ 3 * MAX_FILES_SCANNED + 1 := by
    refine Nat.le_of_add_left_le (run_countP_le (boundAt Effect.rank (3 * MAX_FILES_SCANNED + 1) i)
      _ (fun s ev t hstep => ?_) h)
    refine boundAt_step _ _ _ (fun _ => rfl) (fun cache projectId trimmed nodes => ?_)
      (fun habout hmoves => ?_) (fun ev hne => decide_eq_false hne) hstep
    · rw [Effect.rank, finished_begin]
      exact Nat.add_le_add_right (weight_begin rank_le (Nat.sub_le 3 1) rfl _ _ _) 1
    · rw [habout, decide_eq_true rfl, if_pos rfl]
      exact hmoves.rank
  have hresponses :
      events.countP (fun ev => ev.about = some i && ev.isResponse) ≤ MAX_FILES_SCANNED := by
    refine Nat.le_of_add_left_le (run_countP_le (boundAt Effect.requests MAX_FILES_SCANNED i)
      _ (fun s ev t hstep => ?_) h)
    refine boundAt_step Effect.requests _ (fun ev => ev.about = some i && ev.isResponse)
      (fun _ => rfl) (fun cache projectId trimmed nodes => ?_) (fun habout hmoves => ?_)
      (fun ev hne => ?_) hstep
    · exact (weight_begin asks_le (Nat.le_refl 1) rfl _ _ _).trans_eq (Nat.one_mul _)
    · rw [habout, decide_eq_true rfl, Bool.true_and]
      exact hmoves.requests
    · rw [decide_eq_false hne, Bool.false_and]
  exact ⟨hsteps, hresponses, fun e => exists_step⟩

theorem run_ends_one_file : ∃ s, run (step latinGreek) start oneFile = some s ∧
    oneFile.countP (fun ev => ev.about = some 0) ≤ 3 * MAX_FILES_SCANNED + 1 ∧
    oneFile.countP (fun ev => ev.about = some 0 && ev.isResponse) ≤ MAX_FILES_SCANNED := by
  obtain ⟨s, h, -⟩ := oneFile_runs
  obtain ⟨hsteps, hresponses, -⟩ := run_ends h 0
  exact ⟨s, h, hsteps, hresponses⟩

end CollabIDE.Search.ProjectSearch
