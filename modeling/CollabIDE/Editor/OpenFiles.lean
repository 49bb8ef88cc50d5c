import CollabIDE.Files.Paths
import CollabIDE.Lib.Machine
/-!
# The open tabs

`useOpenFiles`: the tabs, the active one and the files opened last.  A tab is a
label only; the text of its file belongs to its provider.
-/

namespace CollabIDE.Editor.OpenFiles

open CollabIDE.Files.Paths CollabIDE.Lib.Machine

def nul : Char := Char.ofNat 0

/-- An id of the database: it is not empty and has no NUL in it. -/
structure FileId where
  text : String
  nonempty : text ≠ ""
  plain : nul ∉ text.toList
  deriving DecidableEq

structure OpenTab where
  id : FileId
  path : String
  name : String
  deriving DecidableEq

def MAX_RECENT : Nat := 10

structure State where
  tabs : List OpenTab
  activeId : Option FileId
  /-- Most recent first. -/
  recentIds : List FileId
  deriving DecidableEq

def start : State := ⟨[], none, []⟩

/-- The ids of the tabs, in their order. -/
def State.ids (s : State) : List FileId := s.tabs.map OpenTab.id

def openFile (s : State) (id : FileId) (path : String) : State where
  tabs := if id ∈ s.ids then s.tabs else s.tabs ++ [⟨id, path, baseName path⟩]
  activeId := some id
  recentIds := (id :: s.recentIds.filter (· ≠ id)).take MAX_RECENT

def closeFile (s : State) (fileId : FileId) : State :=
  let remaining := s.tabs.filter fun tab => tab.id ≠ fileId
  { s with
    tabs := remaining
    activeId :=
      if s.activeId ≠ some fileId then s.activeId else remaining.getLast?.map OpenTab.id }

def renameTab (s : State) (fileId : FileId) (path : String) : State :=
  { s with
    tabs := s.tabs.map fun tab =>
      if tab.id = fileId then { tab with path, name := baseName path } else tab }

/-! ## Runs -/

inductive Action
  | openFile (id : FileId) (path : String)
  | closeFile (fileId : FileId)
  | renameTab (fileId : FileId) (path : String)
  | setActiveId (fileId : FileId)

/-- The strip has one button a tab: only an open one can be selected. -/
def step (s : State) : Action → Option State
  | .openFile id path => some (openFile s id path)
  | .closeFile fileId => some (closeFile s fileId)
  | .renameTab fileId path => some (renameTab s fileId path)
  | .setActiveId fileId => if fileId ∈ s.ids then some { s with activeId := some fileId } else none

/-- The id an action opens. -/
def Action.opened : Action → Option FileId
  | .openFile id _ => some id
  | .closeFile _ | .renameTab .. | .setActiveId _ => none

/-- One tab a file, named by the end of its path; one of them is active unless there is none. -/
structure Valid (s : State) : Prop where
  distinct : s.ids.Nodup
  names : ∀ tab ∈ s.tabs, tab.name = baseName tab.path
  active : ∀ id, s.activeId = some id → id ∈ s.ids
  shown : s.tabs ≠ [] → s.activeId ≠ none

variable {s t : State} {a : Action} {id : FileId} {path : String}

theorem ids_closeFile (s : State) (fileId : FileId) :
    (closeFile s fileId).ids = s.ids.filter (· ≠ fileId) := by
  rw [State.ids, closeFile, State.ids, List.filter_map]
  rfl

theorem ids_renameTab (s : State) (fileId : FileId) (path : String) :
    (renameTab s fileId path).ids = s.ids := by
  rw [State.ids, renameTab, State.ids, List.map_map]
  refine List.map_congr_left fun tab _ => ?_
  by_cases h : tab.id = fileId <;> simp [h]

theorem ids_openFile (s : State) (id : FileId) (path : String) :
    (openFile s id path).ids = if id ∈ s.ids then s.ids else s.ids ++ [id] := by
  rw [State.ids, openFile]
  split
  · rfl
  · rw [List.map_append]
    rfl

theorem mem_ids_openFile (s : State) (id : FileId) (path : String) :
    id ∈ (openFile s id path).ids := by
  rw [ids_openFile]
  split
  · assumption
  · exact List.mem_append_right _ List.mem_cons_self

theorem Valid.openFile (h : Valid s) : Valid (openFile s id path) where
  distinct := by
    rw [ids_openFile]
    split
    · exact h.distinct
    · next hnew => exact h.distinct.append (List.nodup_singleton id) (by simpa using hnew)
  names tab htab := by
    unfold OpenFiles.openFile at htab
    dsimp only at htab
    split at htab
    · exact h.names tab htab
    · rcases List.mem_append.mp htab with htab | htab
      · exact h.names tab htab
      · rw [List.mem_singleton.mp htab]
  active other hother := by
    obtain rfl := Option.some.inj hother
    exact mem_ids_openFile s _ path
  shown _ := Option.some_ne_none id

theorem Valid.closeFile (h : Valid s) (fileId : FileId) : Valid (closeFile s fileId) where
  distinct := by
    rw [ids_closeFile]
    exact h.distinct.filter _
  names tab htab := h.names tab (List.mem_of_mem_filter htab)
  active other hother := by
    rw [ids_closeFile, List.mem_filter]
    unfold OpenFiles.closeFile at hother
    dsimp only at hother
    split at hother
    · next hne =>
        refine ⟨h.active other hother, decide_eq_true fun heq => hne ?_⟩
        rw [hother, heq]
    · obtain ⟨tab, htab, rfl⟩ := Option.map_eq_some_iff.mp hother
      obtain ⟨hmem, hkept⟩ := List.mem_filter.mp (List.mem_of_getLast? htab)
      exact ⟨List.mem_map_of_mem hmem, hkept⟩
  shown hsome := by
    unfold OpenFiles.closeFile at hsome ⊢
    dsimp only at hsome ⊢
    split
    · exact h.shown fun hnil => hsome (by rw [hnil, List.filter_nil])
    · rw [ne_eq, Option.map_eq_none_iff, List.getLast?_eq_none_iff]
      exact hsome

theorem Valid.renameTab (h : Valid s) (fileId : FileId) (path : String) :
    Valid (renameTab s fileId path) where
  distinct := by
    rw [ids_renameTab]
    exact h.distinct
  names tab htab := by
    obtain ⟨old, hold, rfl⟩ := List.mem_map.mp htab
    split
    · rfl
    · exact h.names old hold
  active other hother := by
    rw [ids_renameTab]
    exact h.active other hother
  shown hsome := h.shown fun hnil => hsome (by rw [OpenFiles.renameTab, hnil, List.map_nil])

theorem valid_step (h : Valid s) (hstep : step s a = some t) : Valid t := by
  cases a with
  | openFile id path =>
      obtain rfl := Option.some.inj hstep
      exact h.openFile
  | closeFile fileId =>
      obtain rfl := Option.some.inj hstep
      exact h.closeFile fileId
  | renameTab fileId path =>
      obtain rfl := Option.some.inj hstep
      exact h.renameTab fileId path
  | setActiveId fileId =>
      rw [step, Option.ite_none_right_eq_some] at hstep
      obtain ⟨hmem, hstep⟩ := hstep
      obtain rfl := Option.some.inj hstep
      exact ⟨h.distinct, h.names, fun _ hid => Option.some.inj hid ▸ hmem,
        fun _ => Option.some_ne_none fileId⟩

theorem valid_start : Valid start :=
  ⟨List.nodup_nil, fun _ htab => absurd htab List.not_mem_nil,
    fun id hid => absurd hid (Option.some_ne_none id).symm, fun hsome => absurd rfl hsome⟩

/-! ## The files opened last -/

section Recent

variable {α : Type} [DecidableEq α]

/-- The first occurrence of every element. -/
def firsts : List α → List α
  | [] => []
  | a :: l => a :: (firsts l).filter (· ≠ a)

/-- An element is put in front of the first `n` others: what was cut off before is not missed. -/
theorem take_cons_filter_take (a : α) (l : List α) (hl : l.Nodup) (n : Nat) :
    (a :: (l.take n).filter (· ≠ a)).take n = (a :: l.filter (· ≠ a)).take n := by
  cases n with
  | zero => rfl
  | succ n =>
      rw [List.take_succ_cons, List.take_succ_cons]
      congr 1
      induction l generalizing n with
      | nil => rfl
      | cons b l ih =>
          have hrest := ih (List.nodup_cons.mp hl).2
          rw [List.take_succ_cons]
          by_cases hb : b = a
          · -- the rest has no other `a`
            have hnot : ∀ c ∈ l, decide (c ≠ a) = true := fun c hc =>
              decide_eq_true fun heq => (List.nodup_cons.mp hl).1 (by rw [hb, ← heq]; exact hc)
            rw [List.filter_cons_of_neg (by simpa using hb),
              List.filter_cons_of_neg (by simpa using hb), List.filter_eq_self.mpr hnot,
              List.filter_eq_self.mpr fun c hc => hnot c (List.mem_of_mem_take hc), List.take_take,
              Nat.min_self]
          · rw [List.filter_cons_of_pos (by simpa using hb),
              List.filter_cons_of_pos (by simpa using hb)]
            cases n with
            | zero => rfl
            | succ n => rw [List.take_succ_cons, List.take_succ_cons, hrest n]

theorem nodup_firsts (l : List α) : (firsts l).Nodup := by
  induction l with
  | nil => exact List.nodup_nil
  | cons a l ih =>
      exact List.nodup_cons.mpr ⟨fun h => absurd rfl (of_decide_eq_true (List.mem_filter.mp h).2),
        ih.filter _⟩

end Recent

theorem recentIds_step (hstep : step s a = some t) {opened : List FileId}
    (h : s.recentIds = (firsts opened).take MAX_RECENT) :
    t.recentIds = (firsts (a.opened.toList ++ opened)).take MAX_RECENT := by
  cases a with
  | openFile id path =>
      obtain rfl := Option.some.inj hstep
      rw [openFile, h]
      exact take_cons_filter_take id (firsts opened) (nodup_firsts opened) MAX_RECENT
  | closeFile fileId =>
      obtain rfl := Option.some.inj hstep
      exact h
  | renameTab fileId path =>
      obtain rfl := Option.some.inj hstep
      exact h
  | setActiveId fileId =>
      rw [step, Option.ite_none_right_eq_some] at hstep
      obtain rfl := Option.some.inj hstep.2
      exact h

theorem recentIds_run {actions : List Action} (hrun : run step s actions = some t)
    (opened : List FileId) (h : s.recentIds = (firsts opened).take MAX_RECENT) :
    t.recentIds =
      (firsts ((actions.filterMap Action.opened).reverse ++ opened)).take MAX_RECENT := by
  induction actions generalizing s opened with
  | nil =>
      obtain rfl := Option.some.inj hrun
      exact h
  | cons a actions ih =>
      obtain ⟨u, hu, hrest⟩ := run_cons_eq_some.mp hrun
      rw [ih hrest _ (recentIds_step hu h)]
      cases hopened : a.opened with
      | none => rw [List.filterMap_cons_none hopened]; rfl
      | some id =>
          rw [List.filterMap_cons_some hopened, List.reverse_cons, List.append_assoc]
          rfl

/-- In every state the tabs are those of distinct files and one of them is active, and the files
opened last are the last ten of all that were opened, each once. -/
theorem tabs_of_run {actions : List Action} (h : run step start actions = some s) :
    Valid s ∧ s.recentIds = (firsts (actions.filterMap Action.opened).reverse).take MAX_RECENT := by
  refine ⟨run_invariant (fun _ _ _ => valid_step) valid_start h, ?_⟩
  have hrecent := recentIds_run h [] rfl
  rwa [List.append_nil] at hrecent

theorem tabs_of_run_reopened : ∃ s, run step start
      [.openFile ⟨"1", by decide, by decide⟩ "src/a.ts",
        .openFile ⟨"2", by decide, by decide⟩ "b.ts", .closeFile ⟨"2", by decide, by decide⟩,
        .openFile ⟨"1", by decide, by decide⟩ "src/a.ts"] =
      some s ∧ Valid s ∧ s.recentIds.map FileId.text = ["1", "2"] := by
  obtain ⟨s, h⟩ : ∃ s, run step start
      [.openFile ⟨"1", by decide, by decide⟩ "src/a.ts",
        .openFile ⟨"2", by decide, by decide⟩ "b.ts", .closeFile ⟨"2", by decide, by decide⟩,
        .openFile ⟨"1", by decide, by decide⟩ "src/a.ts"] =
      some s := ⟨_, rfl⟩
  obtain ⟨hvalid, hrecent⟩ := tabs_of_run h
  refine ⟨s, h, hvalid, ?_⟩
  rw [hrecent]
  decide

end CollabIDE.Editor.OpenFiles
