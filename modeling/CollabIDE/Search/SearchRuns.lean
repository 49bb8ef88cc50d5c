import CollabIDE.Search.ProjectSearch
import Mathlib.Algebra.BigOperators.Group.List.Basic
import Mathlib.Algebra.GroupWithZero.Nat
/-!
# Runs of the project search

Whatever the order in which responses arrive, workers go on and queries change,
the palette shows what the first so many files of the current run of the effect
give and nothing of an earlier one.  A run that ends has counted each of its
files once, unless it has hit the cap.
-/

namespace CollabIDE.Search.ProjectSearch

open CollabIDE.Lib.Machine CollabIDE.Lib.SharedCursor CollabIDE.Search.Match
open CollabIDE.Search.Strings

variable {C : Casing} {e e' : Effect} {ws ws' : List Worker} {w : Worker}
variable {cache : List (Text × Text)} {r : Result} {s t : State} {i k : Nat}

/-! ## What a counted file gives -/

theorem length_scanContent_le (content haystack needle : Text) (rounds : Nat) (c : Cursors) :
    (scanContent content haystack needle rounds c).length ≤ rounds := by
  induction rounds generalizing c with
  | zero => exact Nat.le_refl 0
  | succ rounds ih =>
      rw [scanContent]
      split
      · exact Nat.zero_le _
      · exact Nat.succ_le_succ (ih _)

theorem length_matchContent_le (content query : Text) (limit : Nat) :
    (matchContent C content query limit).length ≤ limit := by
  rw [matchContent]
  split
  · exact Nat.zero_le limit
  · exact length_scanContent_le _ _ _ limit _

/-- What a file with its content adds to the list. -/
def hitsOf (C : Casing) (trimmed : Text) : FlatNode × Option Text → List ContentHit
  | (node, some content) =>
    if isSkipped content then []
    else (matchContent C content trimmed MAX_MATCHES_PER_FILE).map (⟨node, ·⟩)
  | (_, none) => []

def passedOver (file : FlatNode × Option Text) : Bool := file.2.any isSkipped

/-- The result of a run of the effect that has counted its first `k` files. -/
def summary (C : Casing) (e : Effect) (k : Nat) (state : ContentState) (error : Option Text) :
    Result :=
  let files := e.handed.take k
  { contents := (files.flatMap (hitsOf C e.trimmed)).take MAX_CONTENT_MATCHES
    contentState := state
    scanned := k
    total := e.targets.length
    skipped := e.candidates.length - e.targets.length + files.countP passedOver
    isPartial := e.targets.length < e.candidates.length
    capped := MAX_CONTENT_MATCHES ≤ (files.flatMap (hitsOf C e.trimmed)).length
    error }

/-- What is shown is what the first files of a run give, and all of them at its end. -/
structure Shows (C : Casing) (r : Result) (e : Effect) : Prop where
  behind : r.scanned ≤ e.handed.length
  reads : r = summary C e r.scanned r.contentState r.error
  state : r.contentState = if e.finished then .done else .searching
  last : e.finished = true → r.scanned = e.handed.length

/-! ## The variables of a run that is not cancelled -/

/-- What its variables say, with `ws` for its workers. -/
structure Counts (C : Casing) (e : Effect) (ws : List Worker) : Prop where
  shared : Shared e.targets e.cursor (e.handed.map Prod.fst) (ws.filterMap Worker.node?)
  scanned : e.scanned = e.handed.length
  skipped : e.skipped =
    e.candidates.length - e.targets.length + e.handed.countP passedOver
  hits : e.hits = e.handed.flatMap (hitsOf C e.trimmed)
  capped : e.capped = decide (MAX_CONTENT_MATCHES ≤ e.hits.length)
  room : e.hits.length + MAX_MATCHES_PER_FILE * (ws.filterMap Worker.node?).length <
    MAX_CONTENT_MATCHES + MAX_MATCHES_PER_FILE * CONCURRENCY
  stopped : .returned ∈ ws → e.capped = true ∨ e.targets.length ≤ e.cursor

theorem Counts.perm (h : Counts C e ws) (hperm : ws'.Perm ws) : Counts C e ws' where
  shared := h.shared.perm_busy (hperm.filterMap _)
  scanned := h.scanned
  skipped := h.skipped
  hits := h.hits
  capped := h.capped
  room := by rw [(hperm.filterMap _).length_eq]; exact h.room
  stopped := fun hw => h.stopped (hperm.subset hw)

theorem Counts.frame (h : Counts C e ws) (error : Option Text) (lastFlush : Nat)
    (workers : List Worker) (finished : Bool) :
    Counts C { e with error, lastFlush, workers, finished } ws :=
  ⟨h.shared, h.scanned, h.skipped, h.hits, h.capped, h.room, h.stopped⟩

theorem Counts.swap (w' : Worker) (h : Counts C e (w :: ws)) (hnode : w'.node? = w.node?)
    (hreturned : w' ≠ .returned) : Counts C e (w' :: ws) where
  shared := by simpa only [List.filterMap_cons, hnode] using h.shared
  scanned := h.scanned
  skipped := h.skipped
  hits := h.hits
  capped := h.capped
  room := by simpa only [List.filterMap_cons, hnode] using h.room
  stopped := fun hw => h.stopped (List.mem_cons_of_mem _
    ((List.mem_cons.mp hw).resolve_left fun heq => hreturned heq.symm))

@[simp] theorem node?_read (cache : List (Text × Text)) (projectId : Text) (node : FlatNode) :
    (read cache projectId node).node? = some node := by
  unfold read
  split <;> rfl

theorem read_ne_returned (cache : List (Text × Text)) (projectId : Text) (node : FlatNode) :
    read cache projectId node ≠ .returned := by
  unfold read
  split <;> exact Worker.noConfusion

theorem pull_cases (cache : List (Text × Text)) (e : Effect) :
    (e.cancelled || e.capped) = true ∧ pull cache e = (e, .returned) ∨
    (e.cancelled || e.capped) = false ∧ (
      (∃ node, e.targets[e.cursor]? = some node ∧
        pull cache e = ({ e with cursor := e.cursor + 1 }, read cache e.projectId node)) ∨
      e.targets[e.cursor]? = none ∧
        pull cache e = ({ e with cursor := e.cursor + 1 }, .returned)) := by
  unfold pull
  by_cases hstop : (e.cancelled || e.capped) = true
  · exact .inl ⟨hstop, if_pos hstop⟩
  · rw [if_neg hstop]
    refine .inr ⟨Bool.eq_false_iff.mpr hstop, ?_⟩
    cases hnode : e.targets[e.cursor]? with
    | some node => exact .inl ⟨node, rfl, rfl⟩
    | none => exact .inr ⟨rfl, rfl⟩

theorem Counts.pull (cache : List (Text × Text)) (h : Counts C e ws) (hlive : e.cancelled = false)
    (hws : ws.length < CONCURRENCY) :
    Counts C (pull cache e).1 ((pull cache e).2 :: ws) := by
  have hbusy : (ws.filterMap Worker.node?).length ≤ ws.length := List.length_filterMap_le _ _
  rcases pull_cases cache e with ⟨hstop, hpull⟩ | ⟨hstop, ⟨node, hnode, hpull⟩ | ⟨hnode, hpull⟩⟩
  · rw [hpull]
    rw [hlive, Bool.false_or] at hstop
    exact ⟨h.shared, h.scanned, h.skipped, h.hits, h.capped, h.room, fun _ => .inl hstop⟩
  · rw [hpull]
    have hhits : e.hits.length < MAX_CONTENT_MATCHES := by
      rw [hlive, Bool.false_or, h.capped] at hstop
      simpa using hstop
    have hworker : (read cache e.projectId node :: ws).filterMap Worker.node? =
        node :: ws.filterMap Worker.node? := by
      rw [List.filterMap_cons, node?_read]
    refine ⟨?_, h.scanned, h.skipped, h.hits, h.capped, ?_, fun hw => ?_⟩
    · rw [hworker]
      exact (h.shared.pull hnode).perm_busy (List.perm_append_singleton _ _).symm
    · rw [hworker, List.length_cons]
      simp only [MAX_CONTENT_MATCHES, MAX_MATCHES_PER_FILE, CONCURRENCY] at *
      omega
    · have hlater : .returned ∈ ws := (List.mem_cons.mp hw).resolve_left fun heq =>
        read_ne_returned _ _ _ heq.symm
      exact (h.stopped hlater).imp_right Nat.le_succ_of_le
  · rw [hpull]
    have hend : e.targets.length ≤ e.cursor := List.getElem?_eq_none_iff.mp hnode
    exact ⟨h.shared.past hnode, h.scanned, h.skipped, h.hits, h.capped, h.room,
      fun _ => .inr (Nat.le_succ_of_le hend)⟩

theorem Counts.count {node : FlatNode} {content : Option Text}
    (h : Counts C e (.resuming node content :: ws)) : Counts C (count C e node content) ws := by
  have hbusy : (Worker.resuming node content :: ws).filterMap Worker.node? =
      node :: ws.filterMap Worker.node? := rfl
  have hshared : Shared e.targets e.cursor ((e.handed ++ [(node, content)]).map Prod.fst)
      (ws.filterMap Worker.node?) := by
    rw [List.map_append, List.map_singleton]
    exact h.shared.finish (List.Perm.of_eq hbusy)
  have hscanned : e.scanned + 1 = (e.handed ++ [(node, content)]).length := by
    rw [List.length_append, List.length_singleton, h.scanned]
  have hpassed : (e.handed ++ [(node, content)]).countP passedOver =
      e.handed.countP passedOver + if passedOver (node, content) then 1 else 0 := by
    rw [List.countP_append, List.countP_singleton]
  have hhits : (e.handed ++ [(node, content)]).flatMap (hitsOf C e.trimmed) =
      e.hits ++ hitsOf C e.trimmed (node, content) := by
    rw [List.flatMap_append, List.flatMap_singleton, h.hits]
  have hroom := h.room
  rw [hbusy, List.length_cons, Nat.mul_succ] at hroom
  have hstopped : .returned ∈ ws → e.capped = true ∨ e.targets.length ≤ e.cursor := fun hw =>
    h.stopped (List.mem_cons_of_mem _ hw)
  -- by what `read` returned, and by whether the content is looked at
  unfold ProjectSearch.count
  cases content with
  | none =>
      rw [if_neg (by exact Bool.false_ne_true), Nat.add_zero] at hpassed
      rw [hitsOf, List.append_nil] at hhits
      refine ⟨hshared, hscanned, ?_, hhits.symm, h.capped, ?_, hstopped⟩
      · exact h.skipped.trans (congrArg _ hpassed.symm)
      · dsimp only
        omega
  | some content =>
      dsimp only
      cases hskipped : isSkipped content with
      | true =>
          rw [passedOver, Option.any_some, hskipped, if_pos rfl] at hpassed
          rw [hitsOf, hskipped, if_pos rfl, List.append_nil] at hhits
          rw [if_pos rfl]
          refine ⟨hshared, hscanned, ?_, hhits.symm, h.capped, ?_, hstopped⟩
          · exact (congrArg (· + 1) h.skipped).trans
              ((Nat.add_assoc _ _ 1).trans (congrArg _ hpassed.symm))
          · dsimp only
            omega
      | false =>
          have hfound : (matchContent C content e.trimmed MAX_MATCHES_PER_FILE).length ≤
              MAX_MATCHES_PER_FILE := length_matchContent_le _ _ _
          rw [passedOver, Option.any_some, hskipped, if_neg Bool.false_ne_true] at hpassed
          rw [hitsOf, hskipped, if_neg Bool.false_ne_true] at hhits
          rw [if_neg Bool.false_ne_true]
          refine ⟨hshared, hscanned, ?_, hhits.symm, ?_, ?_, fun hw => ?_⟩
          · exact h.skipped.trans (congrArg _ hpassed.symm)
          · dsimp only
            rw [h.capped, Bool.eq_iff_iff]
            simp only [Bool.or_eq_true, decide_eq_true_eq, List.length_append]
            omega
          · dsimp only
            rw [List.length_append, List.length_map]
            omega
          · refine (hstopped hw).imp_left fun hcap => ?_
            rw [hcap, Bool.true_or]

/-! ## One run of the effect -/

/-- A run that is not cancelled. -/
structure Live (C : Casing) (e : Effect) : Prop where
  cancelled : e.cancelled = false
  counts : Counts C e e.workers
  workers : e.workers.length = CONCURRENCY
  finished : e.finished = true → ∀ w ∈ e.workers, w = .returned

theorem perm_of_getElem? (hw : e.workers[k]? = some w) :
    e.workers.Perm (w :: e.workers.eraseIdx k) := by
  obtain ⟨hlt, rfl⟩ := List.getElem?_eq_some_iff.mp hw
  exact (List.getElem_cons_eraseIdx_perm hlt).symm

theorem perm_set (hw : e.workers[k]? = some w) (w' : Worker) :
    (e.workers.set k w').Perm (w' :: e.workers.eraseIdx k) :=
  List.set_perm_cons_eraseIdx (List.getElem?_eq_some_iff.mp hw).1 w'

theorem result_eq_summary (h : Counts C e ws) (state : ContentState) :
    e.result state = summary C e e.handed.length state e.error := by
  rw [Effect.result, summary, List.take_of_length_le (Nat.le_refl _), ← h.hits, h.scanned,
    h.skipped, h.capped]

/-- What is shown depends on the first files of the history only. -/
theorem summary_append {files : List (FlatNode × Option Text)} {state : ContentState}
    {error : Option Text} (hhanded : e'.handed = e.handed ++ files)
    (htrimmed : e'.trimmed = e.trimmed) (hcandidates : e'.candidates = e.candidates)
    (hk : k ≤ e.handed.length) : summary C e' k state error = summary C e k state error := by
  have htargets : e'.targets = e.targets := by rw [Effect.targets, hcandidates]; rfl
  rw [summary, summary, hhanded, htrimmed, hcandidates, htargets,
    List.take_append_of_le_length hk]

theorem Shows.append (files : List (FlatNode × Option Text)) (h : Shows C r e)
    (hhanded : e'.handed = e.handed ++ files) (htrimmed : e'.trimmed = e.trimmed)
    (hcandidates : e'.candidates = e.candidates) (hfinished : e.finished = false)
    (hfinished' : e'.finished = false) : Shows C r e' where
  behind := by
    rw [hhanded, List.length_append]
    exact Nat.le_add_right_of_le h.behind
  reads := by
    rw [summary_append hhanded htrimmed hcandidates h.behind]
    exact h.reads
  state := by rw [h.state, hfinished, hfinished']
  last := fun hlast => absurd hlast (by rw [hfinished']; exact Bool.false_ne_true)

theorem shows_result {state : ContentState} (h : Counts C e ws)
    (hstate : state = if e.finished then .done else .searching) :
    Shows C (e.result state) e := by
  have hreads := result_eq_summary h state
  refine ⟨Nat.le_of_eq h.scanned, ?_, hstate, fun _ => h.scanned⟩
  have hscanned : (e.result state).scanned = e.handed.length := h.scanned
  rw [hscanned]
  exact hreads

/-! ### What the parts of a step leave alone -/

theorem pull_frame (cache : List (Text × Text)) (e : Effect) :
    ∃ cursor, (pull cache e).1 = { e with cursor } := by
  rcases pull_cases cache e with ⟨-, hpull⟩ | ⟨-, ⟨node, -, hpull⟩ | ⟨-, hpull⟩⟩ <;> rw [hpull]
  · exact ⟨e.cursor, rfl⟩
  · exact ⟨e.cursor + 1, rfl⟩
  · exact ⟨e.cursor + 1, rfl⟩

theorem count_frame (e : Effect) (node : FlatNode) (content : Option Text) :
    ∃ scanned skipped hits capped, count C e node content =
      { e with scanned, skipped, hits, capped, handed := e.handed ++ [(node, content)] } := by
  unfold count
  split
  · exact ⟨_, _, _, _, rfl⟩
  · split <;> exact ⟨_, _, _, _, rfl⟩

theorem publish_cases (now : Nat) (state : ContentState) (force : Bool) (e : Effect) (r : Result) :
    (publish now state force e r = (e, r) ∧ force = false) ∨
      publish now state force e r = ({ e with lastFlush := now }, e.result state) := by
  unfold publish
  by_cases hearly : (!force && now - e.lastFlush < FLUSH_MS) = true
  · rw [if_pos hearly]
    refine .inl ⟨rfl, ?_⟩
    simpa using (Bool.and_eq_true_iff.mp hearly).1
  · exact .inr (if_neg hearly)

/-! ### How much is left of a run -/

/-- The files the cursor has not passed. -/
def Effect.left (e : Effect) : Nat := e.targets.length - e.cursor

/-- Every file that is left weighs `a`, and a worker what it weighs by `f`. -/
def Effect.weight (a : Nat) (f : Worker → Nat) (e : Effect) : Nat :=
  a * e.left + (e.workers.map f).sum

/-- The steps a worker takes before it is at the top of its loop again. -/
def Worker.rank : Worker → Nat
  | .reading .. => 2
  | .resuming .. => 1
  | .returned => 0

/-- The responses a worker waits for. -/
def Worker.asks : Worker → Nat
  | .reading .. => 1
  | .resuming .. | .returned => 0

/-- A bound on the steps that are left. -/
def Effect.rank (e : Effect) : Nat := e.weight 3 Worker.rank + if e.finished then 0 else 1

/-- A bound on the responses that are left. -/
def Effect.requests (e : Effect) : Nat := e.weight 1 Worker.asks

theorem rank_le (w : Worker) : w.rank ≤ 3 - 1 := by
  cases w <;> simp [Worker.rank]

theorem asks_le (w : Worker) : w.asks ≤ 1 := by
  cases w <;> simp [Worker.asks]

section Weight

variable {a b : Nat} {f : Worker → Nat}

theorem weight_pull (cache : List (Text × Text)) (e : Effect) (hf : ∀ w, f w ≤ b) (hb : b ≤ a)
    (hreturned : f .returned = 0) :
    a * (pull cache e).1.left + f (pull cache e).2 ≤ a * e.left := by
  rcases pull_cases cache e with ⟨-, hpull⟩ | ⟨-, ⟨node, hnode, hpull⟩ | ⟨hnode, hpull⟩⟩ <;>
    rw [hpull]
  · exact Nat.le_of_eq (congrArg _ hreturned)
  · have hlt := (List.getElem?_eq_some_iff.mp hnode).1
    have hleft : e.left = { e with cursor := e.cursor + 1 }.left + 1 := by
      change e.targets.length - e.cursor = e.targets.length - (e.cursor + 1) + 1
      omega
    rw [hleft, Nat.mul_succ]
    exact Nat.add_le_add_left ((hf _).trans hb) _
  · have hle := List.getElem?_eq_none_iff.mp hnode
    have hleft : { e with cursor := e.cursor + 1 }.left = e.left := by
      change e.targets.length - (e.cursor + 1) = e.targets.length - e.cursor
      omega
    rw [hleft]
    exact Nat.le_of_eq (congrArg _ hreturned)

theorem weight_of_perm {others : List Worker} (hperm : e.workers.Perm (w :: others)) :
    e.weight a f = a * e.left + (f w + (others.map f).sum) := by
  rw [Effect.weight, (hperm.map f).sum_nat, List.map_cons, List.sum_cons]

end Weight

/-! ### Steps of a run -/

theorem live_pull {others : List Worker} (hcancelled : e.cancelled = false)
    (hworkers : e.workers.length = CONCURRENCY) (hfinished : e.finished = false)
    (hcounts : Counts C e others) (hothers : others.length < CONCURRENCY)
    (hperm : ∀ w', (e.workers.set k w').Perm (w' :: others)) :
    Live C { (pull cache e).1 with
      workers := (pull cache e).1.workers.set k (pull cache e).2 } := by
  have hnext := hcounts.pull cache hcancelled hothers
  obtain ⟨cursor, hframe⟩ := pull_frame cache e
  rw [hframe] at hnext ⊢
  have hnext := hnext.frame e.error e.lastFlush (e.workers.set k (pull cache e).2) e.finished
  refine ⟨hcancelled, hnext.perm (hperm _), List.length_set.trans hworkers, fun hlast => ?_⟩
  exact absurd hlast (by rw [hfinished]; exact Bool.false_ne_true)

/-- Whatever a worker that is not at its end does, the run is not at its end. -/
theorem Live.unfinished (h : Live C e) (hw : e.workers[k]? = some w) (hne : w ≠ .returned) :
    e.finished = false :=
  Bool.eq_false_iff.mpr fun hlast => hne (h.finished hlast w (List.mem_of_getElem? hw))

theorem Live.others (h : Live C e) (hw : e.workers[k]? = some w) :
    (e.workers.eraseIdx k).length < CONCURRENCY := by
  have hlength := (perm_of_getElem? hw).length_eq
  rw [List.length_cons, h.workers] at hlength
  omega

/-- The steps of one run, `asked` of them responses: what they make of it, and of what is shown. -/
structure Moves (C : Casing) (s t : State) (i asked : Nat) (e e' : Effect) : Prop where
  effects : t.effects = s.effects.set i e'
  current : t.current = s.current
  mounted : t.mounted = s.mounted
  cancelled : e'.cancelled = e.cancelled
  silent : e.cancelled = true → t.result = s.result
  shows : Live C e → Shows C s.result e → Live C e' ∧ Shows C t.result e'
  rank : e'.rank < e.rank
  requests : e'.requests + asked ≤ e.requests

theorem moves_settle {reply : Reply} (h : settle s i k reply e = some t) :
    ∃ e', Moves C s t i 1 e e' := by
  unfold settle at h
  split at h
  · next url node hw =>
      cases h
      have hbefore := perm_of_getElem? hw
      have hafter := perm_set hw (.resuming node reply.content)
      refine ⟨_, rfl, rfl, rfl, rfl, fun _ => rfl, fun hlive hshows => ?_, ?_, ?_⟩
      rotate_left
      · rw [Effect.rank, Effect.rank, weight_of_perm hbefore, weight_of_perm hafter]
        exact Nat.add_lt_add_right (Nat.add_lt_add_left
          (Nat.add_lt_add_right (Nat.lt_succ_self 1) _) _) _
      · rw [Effect.requests, Effect.requests, weight_of_perm hbefore, weight_of_perm hafter]
        change 1 * e.left + (0 + _) + 1 ≤ 1 * e.left + (1 + _)
        omega
      have hfinished := hlive.unfinished hw Worker.noConfusion
      have hcounts := (hlive.counts.perm (perm_of_getElem? hw).symm).swap
        (.resuming node reply.content) rfl Worker.noConfusion
      refine ⟨⟨hlive.cancelled, ?_, List.length_set.trans hlive.workers, fun hlast => ?_⟩, ?_⟩
      · exact (hcounts.perm (perm_set hw _)).frame (reply.error e.error) e.lastFlush _ e.finished
      · exact absurd hlast (by rw [hfinished]; exact Bool.false_ne_true)
      · exact hshows.append [] (List.append_nil _).symm rfl rfl hfinished hfinished
  · cases h

theorem moves_pull {e₂ : Effect} {node : FlatNode} {content : Option Text}
    (hw : e.workers[k]? = some (.resuming node content)) (hdead : ¬ e.cancelled = true)
    (hcancelled : e₂.cancelled = e.cancelled) (hworkers : e₂.workers = e.workers)
    (hfinished : e₂.finished = e.finished) (hleft : e₂.left = e.left)
    (hcounts : Live C e → Counts C e₂ (e.workers.eraseIdx k))
    (hshows : Live C e → Shows C s.result e → Shows C r e₂) :
    ∃ e', Moves C s { s with
      result := r
      effects := s.effects.set i { (pull s.cache e₂).1 with
        workers := (pull s.cache e₂).1.workers.set k (pull s.cache e₂).2 } } i 0 e e' := by
  obtain ⟨cursor, hframe⟩ := pull_frame s.cache e₂
  have hne : Worker.resuming node content ≠ .returned := Worker.noConfusion
  have hbefore := perm_of_getElem? hw
  have hafter : ((pull s.cache e₂).1.workers.set k (pull s.cache e₂).2).Perm
      ((pull s.cache e₂).2 :: e.workers.eraseIdx k) := by
    have hsame : (pull s.cache e₂).1.workers = e.workers := by rw [hframe, hworkers]
    rw [hsame]
    exact perm_set hw _
  refine ⟨_, rfl, rfl, rfl, ?_, fun hcancelled => absurd hcancelled hdead, fun hlive h => ⟨?_, ?_⟩,
    ?_, ?_⟩
  · rw [hframe]
    exact hcancelled
  · refine live_pull (hcancelled.trans hlive.cancelled) (hworkers ▸ hlive.workers)
      (hfinished.trans (hlive.unfinished hw hne)) (hcounts hlive) (hlive.others hw) fun w' => ?_
    rw [hworkers]
    exact perm_set hw w'
  · have hend : e₂.finished = false := hfinished.trans (hlive.unfinished hw hne)
    rw [hframe]
    exact (hshows hlive h).append [] (List.append_nil _).symm rfl rfl hend hend
  · have hpull := weight_pull s.cache e₂ rank_le (Nat.sub_le 3 1) rfl
    have hend : (pull s.cache e₂).1.finished = e.finished := by rw [hframe, hfinished]
    rw [Effect.rank, Effect.rank, weight_of_perm hbefore, weight_of_perm hafter]
    rw [hleft] at hpull
    change 3 * (pull s.cache e₂).1.left + (_ + _) +
      (if (pull s.cache e₂).1.finished then 0 else 1) < 3 * e.left + (1 + _) + _
    rw [hend]
    omega
  · have hpull := weight_pull s.cache e₂ asks_le (Nat.le_refl 1) rfl
    rw [Effect.requests, Effect.requests, weight_of_perm hbefore, weight_of_perm hafter]
    rw [hleft] at hpull
    change _ ≤ 1 * e.left + (0 + _)
    change 1 * (pull s.cache e₂).1.left + (_ + _) + 0 ≤ _
    omega

theorem moves_resume {now : Nat} (h : resume C s i k now e = some t) :
    ∃ e', Moves C s t i 0 e e' := by
  unfold resume at h
  split at h
  · next node content hw =>
      have hne : Worker.resuming node content ≠ .returned := Worker.noConfusion
      split at h
      · next hcancelled =>
          cases h
          have hbefore := perm_of_getElem? hw
          have hafter := perm_set hw .returned
          refine ⟨_, rfl, rfl, rfl, rfl, fun _ => rfl, fun hlive _ => ?_, ?_, ?_⟩
          · exact absurd hcancelled (by rw [hlive.cancelled]; exact Bool.false_ne_true)
          · rw [Effect.rank, Effect.rank, weight_of_perm hbefore, weight_of_perm hafter]
            exact Nat.add_lt_add_right (Nat.add_lt_add_left
              (Nat.add_lt_add_right (Nat.lt_succ_self 0) _) _) _
          · rw [Effect.requests, Effect.requests, weight_of_perm hbefore, weight_of_perm hafter]
            exact Nat.le_refl _
      · next hdead =>
          obtain rfl := Option.some.inj h
          obtain ⟨scanned, skipped, hits, capped, hcount⟩ := count_frame (C := C) e node content
          have hcounts : Live C e → Counts C (count C e node content) (e.workers.eraseIdx k) :=
            fun hlive => (hlive.counts.perm (perm_of_getElem? hw).symm).count
          -- by whether it is too early to publish
          rcases publish_cases now .searching false (count C e node content) s.result with
            ⟨hpublish, -⟩ | hpublish <;> rw [hpublish]
          · refine moves_pull hw hdead (by rw [hcount]) (by rw [hcount]) (by rw [hcount])
              (by rw [hcount]; rfl) hcounts fun hlive hshows => ?_
            have hfinished := hlive.unfinished hw hne
            rw [hcount]
            exact hshows.append _ rfl rfl rfl hfinished hfinished
          · refine moves_pull hw hdead (by rw [hcount]) (by rw [hcount]) (by rw [hcount])
              (by rw [hcount]; rfl) (fun hlive => ?_) fun hlive _ => ?_
            · exact (hcounts hlive).frame _ now _ _
            · have hfinished : (count C e node content).finished = false := by
                rw [hcount]
                exact hlive.unfinished hw hne
              refine shows_result ((hcounts hlive).frame _ now _ _) ?_
              exact (if_neg (by rw [hfinished]; exact Bool.false_ne_true)).symm
  · cases h

theorem moves_finish {now : Nat} (h : finish s i now e = some t) : ∃ e', Moves C s t i 0 e e' := by
  unfold finish at h
  split at h
  · next hend =>
      have hunfinished : e.finished = false := by
        simpa using (Bool.and_eq_true_iff.mp hend).1
      have hrank : e.weight 3 Worker.rank + 0 < e.rank := by
        rw [Effect.rank, hunfinished]
        exact Nat.lt_succ_self _
      have hreturned : ∀ w ∈ e.workers, w = .returned := by
        simpa using (Bool.and_eq_true_iff.mp hend).2
      split at h
      · next hcancelled =>
          cases h
          refine ⟨_, rfl, rfl, rfl, rfl, fun _ => rfl, fun hlive _ => ?_, hrank, Nat.le_refl _⟩
          exact absurd hcancelled (by rw [hlive.cancelled]; exact Bool.false_ne_true)
      · next hdead =>
          obtain rfl := Option.some.inj h
          rcases publish_cases now .done true { e with finished := true } s.result with
            ⟨-, hforce⟩ | hpublish
          · exact absurd hforce Bool.noConfusion
          rw [hpublish]
          refine ⟨_, rfl, rfl, rfl, rfl, fun hcancelled => absurd hcancelled hdead,
            fun hlive _ => ?_, hrank, Nat.le_refl _⟩
          have hcounts := hlive.counts.frame e.error now e.workers true
          exact ⟨⟨hlive.cancelled, hcounts, hlive.workers, fun _ => hreturned⟩,
            shows_result hcounts rfl⟩
  · cases h

/-! ### The start of a run -/

theorem live_launch (n : Nat) (hcancelled : e.cancelled = false)
    (hfinished : e.finished = false) (hcounts : Counts C e e.workers)
    (hn : e.workers.length + n = CONCURRENCY) : Live C (launch cache n e) := by
  induction n generalizing e with
  | zero =>
      rw [launch]
      exact ⟨hcancelled, hcounts, hn, fun hlast =>
        absurd hlast (by rw [hfinished]; exact Bool.false_ne_true)⟩
  | succ n ih =>
      have hnext := hcounts.pull cache hcancelled (by omega)
      obtain ⟨cursor, hframe⟩ := pull_frame cache e
      rw [launch]
      rw [hframe] at hnext ⊢
      have hnext := hnext.perm (List.perm_append_singleton _ _)
      refine ih hcancelled hfinished (hnext.frame e.error e.lastFlush _ e.finished) ?_
      rw [List.length_append, List.length_singleton, Nat.add_assoc, Nat.add_comm 1 n]
      exact hn

theorem launch_frame (cache : List (Text × Text)) (n : Nat) (e : Effect) :
    ∃ cursor workers, launch cache n e = { e with cursor, workers } := by
  induction n generalizing e with
  | zero => exact ⟨e.cursor, e.workers, rfl⟩
  | succ n ih =>
      obtain ⟨cursor, hframe⟩ := pull_frame cache e
      obtain ⟨cursor', workers', hlaunch⟩ := ih { (pull cache e).1 with
        workers := (pull cache e).1.workers ++ [(pull cache e).2] }
      refine ⟨cursor', workers', ?_⟩
      rw [launch, hlaunch, hframe]

theorem live_begin (projectId trimmed : Text) (nodes : List FlatNode) :
    Live C (begin C cache projectId trimmed nodes) := by
  have hcap : 0 < MAX_CONTENT_MATCHES := by decide
  refine live_launch CONCURRENCY rfl rfl ⟨shared_nil _, rfl, rfl, rfl, ?_, ?_, ?_⟩ rfl
  · exact (decide_eq_false (Nat.not_le_of_gt hcap)).symm
  · exact Nat.lt_of_lt_of_le hcap (Nat.le_add_right _ _)
  · exact fun hw => absurd hw List.not_mem_nil

theorem shows_begin (projectId trimmed : Text) (nodes : List FlatNode) :
    Shows C ((begin C cache projectId trimmed nodes).result .searching)
      (begin C cache projectId trimmed nodes) := by
  refine shows_result (live_begin projectId trimmed nodes).counts ?_
  unfold begin
  obtain ⟨cursor, workers, hlaunch⟩ := launch_frame cache CONCURRENCY
    { projectId, trimmed
      candidates := nodes.filter fun node => !node.isDir && isContentSearchable C node.path
      cancelled := false, scanned := 0, skipped := _, hits := [], capped := false, error := none
      lastFlush := 0, cursor := 0, workers := [], finished := false, handed := [] }
  rw [hlaunch]
  rfl

/-! ## Runs of the hook -/

/-- The runs of the effect but the current one are cancelled, and what is shown is the current
one's. -/
structure Inv (C : Casing) (s : State) : Prop where
  old : ∀ i e, s.effects[i]? = some e → s.current ≠ some i → e.cancelled = true
  live : ∀ i, s.current = some i → ∃ e, s.effects[i]? = some e ∧ Live C e ∧ Shows C s.result e
  idle : s.current = none → s.mounted = true → s.result = .idle

theorem Inv.moves {asked : Nat} (h : Inv C s) (he : s.effects[i]? = some e)
    (hmoves : Moves C s t i asked e e') : Inv C t where
  old j f hf hj := by
    rw [hmoves.effects] at hf
    rw [hmoves.current] at hj
    by_cases hij : i = j
    · subst hij
      rw [List.getElem?_set_self (List.getElem?_eq_some_iff.mp he).1, Option.some.injEq] at hf
      rw [← hf, hmoves.cancelled]
      exact h.old i e he hj
    · rw [List.getElem?_set_ne hij] at hf
      exact h.old j f hf hj
  live j hj := by
    rw [hmoves.current] at hj
    obtain ⟨f, hf, hlive, hshows⟩ := h.live j hj
    rw [hmoves.effects]
    by_cases hij : i = j
    · subst hij
      obtain rfl : e = f := Option.some.inj (he.symm.trans hf)
      obtain ⟨hlive', hshows'⟩ := hmoves.shows hlive hshows
      exact ⟨e', List.getElem?_set_self (List.getElem?_eq_some_iff.mp he).1, hlive', hshows'⟩
    · have hdead := h.old i e he (by rw [hj]; exact fun heq => hij (Option.some.inj heq).symm)
      refine ⟨f, by rw [List.getElem?_set_ne hij]; exact hf, hlive, ?_⟩
      rw [hmoves.silent hdead]
      exact hshows
  idle hnone hmounted := by
    rw [hmoves.current] at hnone
    rw [hmoves.mounted] at hmounted
    rw [hmoves.silent (h.old i e he (by rw [hnone]; exact (Option.some_ne_none i).symm))]
    exact h.idle hnone hmounted

theorem cancelled_of_cleanup (h : Inv C s) (he : (cleanup s)[i]? = some e) :
    e.cancelled = true := by
  unfold cleanup at he
  split at he
  · next j hj =>
      rw [List.getElem?_modify] at he
      obtain ⟨f, hf, rfl⟩ := Option.map_eq_some_iff.mp he
      split_ifs with hij
      · rfl
      · exact h.old i f hf (by rw [hj]; exact fun heq => hij (Option.some.inj heq))
  · next hnone => exact h.old i e he (by rw [hnone]; exact (Option.some_ne_none i).symm)

@[simp] theorem length_cleanup (s : State) : (cleanup s).length = s.effects.length := by
  unfold cleanup
  split
  · exact List.length_modify ..
  · rfl

theorem inv_runEffect (h : Inv C s) (projectId debounced : Text) (enabled : Bool)
    (nodes : List FlatNode) : Inv C (runEffect C s projectId debounced enabled nodes) := by
  unfold runEffect
  dsimp only
  split
  · refine ⟨fun i e he hi => ?_, fun i hi => ?_, fun hnone => absurd hnone (Option.some_ne_none _)⟩
    · have hne : i ≠ (cleanup s).length := fun heq => hi (by rw [heq, length_cleanup])
      have hlt : i < (cleanup s).length := by
        have hle := (List.getElem?_eq_some_iff.mp he).1
        rw [List.length_append, List.length_singleton] at hle
        omega
      rw [List.getElem?_append_left hlt] at he
      exact cancelled_of_cleanup h he
    · obtain rfl := Option.some.inj hi
      refine ⟨_, ?_, live_begin _ _ _, shows_begin _ _ _⟩
      dsimp only
      rw [← length_cleanup, List.getElem?_concat_length]
  · exact ⟨fun i e he _ => cancelled_of_cleanup h he,
      fun i hi => absurd hi (Option.some_ne_none i).symm, fun _ _ => rfl⟩

theorem moves_step {ev : Event} (habout : ev.about = some i) (h : step C s ev = some t) :
    ∃ e e', s.effects[i]? = some e ∧ Moves C s t i (if ev.isResponse then 1 else 0) e e' := by
  cases ev with
  | effect projectId debounced enabled nodes => cases habout
  | unmount => cases habout
  | settle j k reply =>
      cases habout
      obtain ⟨e, he, h⟩ := Option.bind_eq_some_iff.mp h
      obtain ⟨e', hmoves⟩ := moves_settle h
      exact ⟨e, e', he, hmoves⟩
  | resume j k now =>
      cases habout
      obtain ⟨e, he, h⟩ := Option.bind_eq_some_iff.mp h
      obtain ⟨e', hmoves⟩ := moves_resume h
      exact ⟨e, e', he, hmoves⟩
  | finish j now =>
      cases habout
      obtain ⟨e, he, h⟩ := Option.bind_eq_some_iff.mp h
      obtain ⟨e', hmoves⟩ := moves_finish h
      exact ⟨e, e', he, hmoves⟩

theorem inv_step {ev : Event} (h : Inv C s) (hstep : step C s ev = some t) : Inv C t := by
  cases habout : ev.about with
  | some i =>
      obtain ⟨e, e', he, hmoves⟩ := moves_step habout hstep
      exact h.moves he hmoves
  | none =>
      cases ev with
      | settle | resume | finish => cases habout
      | effect projectId debounced enabled nodes =>
          rw [step, Option.ite_none_right_eq_some] at hstep
          obtain rfl := Option.some.inj hstep.2
          exact inv_runEffect h projectId debounced enabled nodes
      | unmount =>
          rw [step, Option.ite_none_right_eq_some] at hstep
          obtain rfl := Option.some.inj hstep.2
          exact ⟨fun i e he _ => cancelled_of_cleanup h he,
            fun i hi => absurd hi (Option.some_ne_none i).symm,
            fun _ hmounted => absurd hmounted Bool.false_ne_true⟩

theorem inv_start : Inv C start :=
  ⟨fun _ e he => absurd he (Option.some_ne_none e).symm,
    fun i hi => absurd hi (Option.some_ne_none i).symm, fun _ _ => rfl⟩

theorem inv_run {events : List Event} (h : run (step C) start events = some s) : Inv C s :=
  run_invariant (fun _ _ _ => inv_step) inv_start h

/-- What is shown is what the first so many files of the current run of the effect give, in
matches of its own query and in files it has picked, each counted once, or nothing if there is no
current run. -/
theorem result_of_run {events : List Event} (h : run (step C) start events = some s) :
    (∀ i e, s.current = some i → s.effects[i]? = some e →
      Shows C s.result e ∧ (e.handed.map Prod.fst).Subperm e.targets) ∧
    (s.current = none → s.mounted = true → s.result = .idle) := by
  have hinv := inv_run h
  refine ⟨fun i e hi he => ?_, hinv.idle⟩
  obtain ⟨f, hf, hlive, hshows⟩ := hinv.live i hi
  obtain rfl : f = e := Option.some.inj (hf.symm.trans he)
  exact ⟨hshows, hlive.counts.shared.subperm⟩

/-- One file is read, counted and shown. -/
def oneFile : List Event :=
  [.effect (units "p") (units "foo") true
      [⟨units "1", units "a.ts", units "a.ts", false, units "t"⟩],
    .settle 0 0 (.ok (units "a foo")), .resume 0 0 100, .finish 0 200]

theorem oneFile_runs : ∃ s, run (step latinGreek) start oneFile = some s ∧
    s.mounted = true ∧ s.current = some 0 ∧ s.result.contentState = .done ∧
    s.result.capped = false := by
  have hshown : (run (step latinGreek) start oneFile).map (fun s =>
      (s.mounted, s.current, s.result.contentState, s.result.capped)) =
      some (true, some 0, .done, false) := by decide
  obtain ⟨s, h, hs⟩ := Option.map_eq_some_iff.mp hshown
  simp only [Prod.mk.injEq] at hs
  exact ⟨s, h, hs⟩

theorem result_of_run_one_file : ∃ s, run (step latinGreek) start oneFile = some s ∧
    ∀ e, s.effects[0]? = some e →
      Shows latinGreek s.result e ∧ (e.handed.map Prod.fst).Subperm e.targets := by
  obtain ⟨s, h, -, hcurrent, -⟩ := oneFile_runs
  exact ⟨s, h, fun e => (result_of_run h).1 0 e hcurrent⟩

/-- A search that is done without the cap, the current run of the effect, has counted each of its
files once and shows all they give; with the cap it shows as many rows as there may be. -/
theorem complete_of_done {events : List Event} (h : run (step C) start events = some s)
    (hmounted : s.mounted = true) (hdone : s.result.contentState = .done) :
    ∃ i e, s.current = some i ∧ s.effects[i]? = some e ∧ s.result.scanned = e.handed.length ∧
      (s.result.capped = false → (e.handed.map Prod.fst).Perm e.targets ∧
        s.result.scanned = s.result.total ∧
        s.result.contents = e.handed.flatMap (hitsOf C e.trimmed)) ∧
      (s.result.capped = true → s.result.contents.length = MAX_CONTENT_MATCHES) := by
  have hinv := inv_run h
  obtain ⟨i, hi⟩ : ∃ i, s.current = some i := by
    refine Option.ne_none_iff_exists'.mp fun hnone => ?_
    rw [hinv.idle hnone hmounted] at hdone
    cases hdone
  obtain ⟨e, he, hlive, hshows⟩ := hinv.live i hi
  have hfinished : e.finished = true := by
    by_contra hnot
    have hstate := hshows.state
    rw [if_neg hnot, hdone] at hstate
    cases hstate
  have hlast := hshows.last hfinished
  have hreads := hshows.reads
  rw [hlast, summary, List.take_of_length_le (Nat.le_refl _)] at hreads
  have hcapped := congrArg Result.capped hreads
  have hcontents := congrArg Result.contents hreads
  dsimp only at hcapped hcontents
  refine ⟨i, e, hi, he, hlast, fun hcap => ?_, fun hcap => ?_⟩
  · rw [hcap] at hcapped
    have hshort := of_decide_eq_false hcapped.symm
    have huncapped : e.capped = false := by
      rw [hlive.counts.capped, hlive.counts.hits]
      exact decide_eq_false hshort
    -- the workers have all met the end of the list
    have hbusy : e.workers.filterMap Worker.node? = [] := by
      rw [List.filterMap_eq_nil_iff]
      intro w hw
      rw [hlive.finished hfinished w hw]
      rfl
    have hreturned : .returned ∈ e.workers := by
      obtain ⟨w, ws, hws⟩ := List.exists_cons_of_length_pos (l := e.workers)
        (by rw [hlive.workers]; decide)
      have hw : w ∈ e.workers := by
        rw [hws]
        exact List.mem_cons_self
      rw [← hlive.finished hfinished w hw]
      exact hw
    have hend := (hlive.counts.stopped hreturned).resolve_left (by simp [huncapped])
    have hshared := hlive.counts.shared
    rw [hbusy] at hshared
    have hperm := hshared.all hend
    refine ⟨hperm, ?_, ?_⟩
    · have hlength := hperm.length_eq
      rw [List.length_map] at hlength
      rw [hlast, hlength]
      exact (congrArg Result.total hreads).symm
    · rw [hcontents]
      exact List.take_of_length_le (Nat.le_of_lt (Nat.lt_of_not_le hshort))
  · rw [hcap] at hcapped
    rw [hcontents, List.length_take, Nat.min_eq_left (of_decide_eq_true hcapped.symm)]

theorem complete_of_done_one_file : ∃ s, run (step latinGreek) start oneFile = some s ∧
    ∃ e, s.effects[0]? = some e ∧ (e.handed.map Prod.fst).Perm e.targets ∧
      s.result.scanned = s.result.total ∧
      s.result.contents = e.handed.flatMap (hitsOf latinGreek e.trimmed) := by
  obtain ⟨s, h, hmounted, hcurrent, hdone, hcapped⟩ := oneFile_runs
  obtain ⟨i, e, hi, he, -, hcomplete, -⟩ := complete_of_done h hmounted hdone
  obtain rfl : 0 = i := Option.some.inj (hcurrent.symm.trans hi)
  exact ⟨s, h, e, he, hcomplete hcapped⟩

end CollabIDE.Search.ProjectSearch
