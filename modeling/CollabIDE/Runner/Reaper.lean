import CollabIDE.Files.Paths
import CollabIDE.Lib.Machine
import Mathlib.Data.List.Nodup
/-!
# The reaper

`reapStaleContainers`, docker command by docker command.  Sweeps overlap each
other and everything else that is done to the daemon; what a sweep removes it
has read as text, and what it has read may be out of date.  An id that was given
once is never given again, so as long as no other container is called by what is
printed of it, a stale reading can only miss.
-/

namespace CollabIDE.Runner.Reaper

open CollabIDE.Files.Paths CollabIDE.Lib.Machine

abbrev Text := List Char

def RUN_LABEL : String := "ce.run"
def DEFAULT_MAX_AGE_MS : Int := 60000

/-- A text `docker` prints a field as. -/
def Plain (field : Text) : Prop := field ≠ [] ∧ ∀ c ∈ field, isTrimmed c = false

instance (field : Text) : Decidable (Plain field) :=
  decidable_of_iff (field ≠ [] ∧ (field.all fun c => !isTrimmed c) = true)
    (and_congr_right fun _ => by simp only [List.all_eq_true, Bool.not_eq_true'])

/-- A container with the keys of its labels, what `docker inspect` prints as its `Created`, and the
instant `Date` makes of that. -/
structure Container (getTime : Text → Option Int) where
  id : Text
  name : Text
  labels : List String
  created : Text
  createdMs : Int
  plainId : Plain id
  plainCreated : Plain created
  getTime_created : getTime created = some createdMs

variable {getTime : Text → Option Int}

/-! ## What docker prints -/

/-- What `docker ps` prints of an id. -/
def Container.shortId (c : Container getTime) : Text := c.id.take 12

/-- `docker ps -aq`. -/
def psText (containers : List (Container getTime)) : Text :=
  containers.flatMap fun c => c.shortId ++ ['\n']

/-- `docker inspect`, in the format of an id, which it prints in full, and a creation time. -/
def inspectText (containers : List (Container getTime)) : Text :=
  containers.flatMap fun c => c.id ++ ' ' :: c.created ++ ['\n']

def trimLine (line : Text) : Text :=
  ((line.dropWhile isTrimmed).reverse.dropWhile isTrimmed).reverse

def listedIds (stdout : Text) : List Text := ((stdout.splitOn '\n').map trimLine).filter (· ≠ [])

/-- The words of `line.trim().split(/\s+/)`. -/
def words (line : Text) : List Text := (line.splitOnP isTrimmed).filter (· ≠ [])

variable (getTime) in
def parseInspectLine (line : Text) : Option (Text × Int) :=
  match words line with
  | id :: created :: _ => (getTime created).map fun createdMs => (id, createdMs)
  | _ => none

variable (getTime) in
def staleIds (stdout : Text) (cutoff : Int) : List Text :=
  (((stdout.splitOn '\n').filterMap (parseInspectLine getTime)).filter
    fun entry => entry.2 ≤ cutoff).map Prod.fst

theorem not_newline {field : Text} (h : Plain field) : '\n' ∉ field := by
  intro hmem
  exact absurd (h.2 '\n' hmem) (by decide)

theorem splitOn_lines {lines : List Text} (h : ∀ line ∈ lines, '\n' ∉ line) :
    (lines.flatMap fun line => line ++ ['\n']).splitOn '\n' = lines ++ [[]] := by
  induction lines with
  | nil => rfl
  | cons line lines ih =>
      rw [List.flatMap_cons, List.append_assoc, List.singleton_append,
        List.splitOn_append_cons_self_of_not_mem (h line List.mem_cons_self),
        ih fun other hother => h other (List.mem_cons_of_mem _ hother), List.cons_append]

theorem dropWhile_plain {field : Text} (h : ∀ c ∈ field, isTrimmed c = false) :
    field.dropWhile isTrimmed = field := by
  cases field with
  | nil => rfl
  | cons c field => rw [List.dropWhile_cons, h c List.mem_cons_self, if_neg Bool.false_ne_true]

theorem trimLine_plain {field : Text} (h : Plain field) : trimLine field = field := by
  rw [trimLine, dropWhile_plain h.2, dropWhile_plain fun c hc => h.2 c (List.mem_reverse.mp hc),
    List.reverse_reverse]

theorem Container.plainShortId (c : Container getTime) : Plain c.shortId := by
  refine ⟨fun hnil => c.plainId.1 ?_, fun char hchar => ?_⟩
  · exact (List.take_eq_nil_iff.mp hnil).resolve_left (by decide)
  · exact c.plainId.2 char (List.mem_of_mem_take hchar)

/-- The ids are read back as they were printed. -/
theorem listedIds_psText (containers : List (Container getTime)) :
    listedIds (psText containers) = containers.map Container.shortId := by
  have hlines : psText containers =
      (containers.map Container.shortId).flatMap fun line => line ++ ['\n'] := by
    rw [List.flatMap_map]
    rfl
  have hids : ∀ line ∈ containers.map Container.shortId, Plain line := by
    intro line hline
    obtain ⟨c, -, rfl⟩ := List.mem_map.mp hline
    exact c.plainShortId
  rw [listedIds, hlines, splitOn_lines fun line hline => not_newline (hids line hline),
    List.map_append, List.filter_append]
  have hsame : (containers.map Container.shortId).map trimLine =
      containers.map Container.shortId :=
    List.map_congr_left (fun line hline => trimLine_plain (hids line hline)) |>.trans
      (List.map_id _)
  have hall : (containers.map Container.shortId).filter (· ≠ []) =
      containers.map Container.shortId :=
    List.filter_eq_self.mpr fun line hline => decide_eq_true (hids line hline).1
  rw [hsame, hall]
  exact List.append_nil _

theorem words_line (c : Container getTime) : words (c.id ++ ' ' :: c.created) =
    [c.id, c.created] := by
  rw [words, List.splitOnP_append_cons_of_forall_mem c.plainId.2 ' ' (by decide),
    List.splitOnP_eq_singleton c.plainCreated.2]
  simp [c.plainId.1, c.plainCreated.1]

theorem parseInspectLine_line (c : Container getTime) :
    parseInspectLine getTime (c.id ++ ' ' :: c.created) = some (c.id, c.createdMs) := by
  simp only [parseInspectLine, words_line, c.getTime_created, Option.map_some]

theorem staleIds_inspectText (containers : List (Container getTime)) (cutoff : Int) :
    staleIds getTime (inspectText containers) cutoff =
      (containers.filter fun c => c.createdMs ≤ cutoff).map Container.id := by
  have hlines : inspectText containers = (containers.map fun c =>
      c.id ++ ' ' :: c.created).flatMap fun line => line ++ ['\n'] := by
    rw [List.flatMap_map]
    rfl
  have hplain : ∀ line ∈ containers.map fun c => c.id ++ ' ' :: c.created, '\n' ∉ line := by
    intro line hline
    obtain ⟨c, -, rfl⟩ := List.mem_map.mp hline
    simp [not_newline c.plainId, not_newline c.plainCreated]
  have hparsed : (containers.map fun c => c.id ++ ' ' :: c.created).filterMap
      (parseInspectLine getTime) = containers.map fun c => (c.id, c.createdMs) := by
    rw [List.filterMap_map, ← List.filterMap_eq_map]
    exact List.filterMap_congr fun c _ => parseInspectLine_line c
  have hempty : [([] : Text)].filterMap (parseInspectLine getTime) = [] := rfl
  rw [staleIds, hlines, splitOn_lines hplain, List.filterMap_append, hparsed, hempty,
    List.append_nil, List.filter_map, List.map_map]
  rfl

/-! ## What docker finds -/

/-- An id, a name or the start of an id. -/
def Container.answersTo (c : Container getTime) (reference : Text) : Bool :=
  c.id = reference || c.name = reference || reference.isPrefixOf c.id

/-- An id goes before a name, and a name before the start of an id, which has to be of one
container. -/
def lookUp (containers : List (Container getTime)) (reference : Text) :
    Option (Container getTime) :=
  ((containers.find? fun c => c.id = reference).or
    (containers.find? fun c => c.name = reference)).or
    (match containers.filter fun c => reference.isPrefixOf c.id with
      | [c] => some c
      | _ => none)

theorem lookUp_eq_some {containers : List (Container getTime)} {reference : Text}
    {c : Container getTime} (h : lookUp containers reference = some c) :
    c ∈ containers ∧ c.answersTo reference = true := by
  rw [lookUp, Option.or_eq_some_iff, Option.or_eq_some_iff] at h
  rcases h with (hid | ⟨-, hname⟩) | ⟨-, honly⟩
  · have heq := List.find?_some hid
    exact ⟨List.mem_of_find?_eq_some hid, by simp [Container.answersTo, of_decide_eq_true heq]⟩
  · have heq := List.find?_some hname
    exact ⟨List.mem_of_find?_eq_some hname, by simp [Container.answersTo, of_decide_eq_true heq]⟩
  · split at honly
    · next only hfilter =>
      obtain rfl := Option.some.inj honly
      obtain ⟨hmem, hstarts⟩ := List.mem_filter.mp (hfilter ▸ List.mem_singleton_self only)
      exact ⟨hmem, by simp [Container.answersTo, hstarts]⟩
    · cases honly

theorem lookUp_of_only {containers : List (Container getTime)} {reference : Text}
    {c : Container getTime} (hids : (containers.map Container.id).Nodup) (hc : c ∈ containers)
    (hstarts : reference.isPrefixOf c.id = true)
    (honly : ∀ other ∈ containers, other.answersTo reference = true → other.id = c.id) :
    lookUp containers reference = some c := by
  cases hlook : lookUp containers reference with
  | some other =>
      obtain ⟨hmem, hanswers⟩ := lookUp_eq_some hlook
      rw [List.inj_on_of_nodup_map hids hmem hc (honly other hmem hanswers)]
  | none =>
      exfalso
      have hsame : containers.filter (fun d => reference.isPrefixOf d.id) = [c] := by
        refine List.perm_singleton.mp ?_
        refine (List.perm_ext_iff_of_nodup ((hids.of_map _).filter _) (List.nodup_singleton c)).mpr
          fun other => ?_
        rw [List.mem_filter, List.mem_singleton]
        constructor
        · rintro ⟨hmem, hstarts⟩
          refine List.inj_on_of_nodup_map hids hmem hc (honly other hmem ?_)
          simp [Container.answersTo, hstarts]
        · rintro rfl
          exact ⟨hc, hstarts⟩
      rw [lookUp, hsame, Option.or_eq_none_iff] at hlook
      cases hlook.2

/-! ## Sweeps -/

/-- What a sweep waits for. -/
inductive Stage
  /-- `docker ps`. -/
  | listing
  /-- `docker inspect`. -/
  | inspecting (ids : List Text)
  /-- `docker inspect` has answered, and the sweep is about to read the clock. -/
  | inspected (stdout : Text)
  /-- `docker rm -fv`, with what it has still to remove. -/
  | removing (count : Nat) (rest : List Text)
  | returned (removed : Nat)
  deriving DecidableEq

structure State (getTime : Text → Option Int) where
  containers : List (Container getTime)
  /-- Every container there ever was. -/
  made : List (Container getTime)
  now : Int
  sweeps : List Stage
  /-- What the sweeps removed, with the time. -/
  reaped : List (Container getTime × Int)

variable (getTime) in
def State.init (now : Int) : State getTime := ⟨[], [], now, [], []⟩

inductive Event (getTime : Text → Option Int)
  | tick (ms : Nat)
  | create (container : Container getTime)
  /-- Removed by the run it belongs to, by `--rm`, or by hand. -/
  | remove (id : Text)
  /-- `reapStaleContainers` is called. -/
  | sweep
  /-- The docker command of a sweep goes on. -/
  | docker (sweep : Nat)
  /-- The sweep reads the clock and selects what is stale. -/
  | selects (sweep : Nat)
  /-- The docker command of a sweep exits with an error. -/
  | fails (sweep : Nat)

def labelled (c : Container getTime) : Bool := c.labels.contains RUN_LABEL

/-- The next effect of a sweep's docker command. -/
def docker (s : State getTime) (k : Nat) : Stage → Option (State getTime)
  | .listing =>
    let ids := listedIds (psText (s.containers.filter labelled))
    let stage := if ids = [] then .returned 0 else .inspecting ids
    some { s with sweeps := s.sweeps.set k stage }
  | .inspecting ids =>
    let found := ids.filterMap (lookUp s.containers)
    -- it exits with an error if one of the ids is no longer there
    let stage := if found.length = ids.length then .inspected (inspectText found) else .returned 0
    some { s with sweeps := s.sweeps.set k stage }
  | .removing count (id :: rest) =>
    let sweeps := s.sweeps.set k (.removing count rest)
    match lookUp s.containers id with
    | some found =>
      some { s with
        containers := s.containers.filter fun c => c.id ≠ found.id
        reaped := s.reaped ++ [(found, s.now)]
        sweeps }
    | none => some { s with sweeps }
  | .removing count [] => some { s with sweeps := s.sweeps.set k (.returned count) }
  | .inspected _ | .returned _ => none

variable (maxAgeMs : Int)

def step (s : State getTime) : Event getTime → Option (State getTime)
  | .tick ms => some { s with now := s.now + ms }
  | .create c =>
    if c.id ∉ s.made.map Container.id ∧ c.createdMs = s.now then
      some { s with containers := s.containers ++ [c], made := s.made ++ [c] }
    else none
  | .remove id => some { s with containers := s.containers.filter fun c => c.id ≠ id }
  | .sweep => some { s with sweeps := s.sweeps ++ [.listing] }
  | .docker k => s.sweeps[k]?.bind (docker s k)
  | .selects k =>
    match s.sweeps[k]? with
    | some (.inspected stdout) =>
      let stale := staleIds getTime stdout (s.now - maxAgeMs)
      let stage := if stale = [] then .returned 0 else .removing stale.length stale
      some { s with sweeps := s.sweeps.set k stage }
    | _ => none
  | .fails k =>
    match s.sweeps[k]? with
    | some .listing | some (.inspecting _) | some (.removing ..) =>
      some { s with sweeps := s.sweeps.set k (.returned 0) }
    | _ => none

end CollabIDE.Runner.Reaper
