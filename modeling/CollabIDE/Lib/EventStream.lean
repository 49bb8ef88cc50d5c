import Mathlib.Data.List.Basic
/-!
# Event streams

A stream of Server-Sent Events as it is written, one `data` line an event, and
the reader of a browser that takes it character by character: a line ends with
CR, LF or both, a blank line dispatches the event, and one mark of the byte
order in front is passed over.  The fields `id` and `retry` change nothing that
is dispatched.
-/

namespace CollabIDE.Lib.EventStream

/-- An event of the stream: its type, empty for a plain message, and its data. -/
structure Message where
  event : List Char
  data : List Char
  deriving DecidableEq

/-- `data` has an LF behind every line of it. -/
structure Reader where
  fresh : Bool
  afterCr : Bool
  line : List Char
  event : List Char
  data : List Char
  deriving DecidableEq

def Reader.start : Reader := ⟨true, false, [], [], []⟩

def setField (name value : List Char) (r : Reader) : Reader :=
  if name = "event".toList then { r with event := value }
  else if name = "data".toList then { r with data := r.data ++ (value ++ ['\n']) }
  else r

/-- The value of a field without the space in front of it. -/
def dropSpace (value : List Char) : List Char :=
  if value.head? = some ' ' then value.tail else value

def endLine (r : Reader) : Reader × Option Message :=
  if r.line = [] then
    ({ r with event := [], data := [] },
      if r.data = [] then none else some ⟨r.event, r.data.dropLast⟩)
  else if r.line.head? = some ':' then ({ r with line := [] }, none)
  else
    (setField (r.line.takeWhile (· ≠ ':')) (dropSpace (r.line.dropWhile (· ≠ ':')).tail)
      { r with line := [] }, none)

def push (r : Reader) (c : Char) : Reader × Option Message :=
  if r.fresh && c = '\ufeff' then ({ r with fresh := false }, none)
  else if c = '\n' then
    if r.afterCr then ({ r with afterCr := false }, none)
    else endLine { r with fresh := false }
  else if c = '\r' then endLine { r with fresh := false, afterCr := true }
  else ({ r with fresh := false, afterCr := false, line := r.line ++ [c] }, none)

/-- Take a text, with the events dispatched on the way. -/
def read : Reader → List Char → Reader × List Message
  | r, [] => (r, [])
  | r, c :: cs =>
    ((read (push r c).1 cs).1, (push r c).2.toList ++ (read (push r c).1 cs).2)

/-- Take the chunks of a text one after another. -/
def readChunks : Reader → List (List Char) → Reader × List Message
  | r, [] => (r, [])
  | r, chunk :: chunks =>
    ((readChunks (read r chunk).1 chunks).1,
      (read r chunk).2 ++ (readChunks (read r chunk).1 chunks).2)

def dataField : List Char := "data: ".toList

/-- An event with one line of data. -/
def write (text : List Char) : List Char := dataField ++ (text ++ ['\n', '\n'])

variable {r : Reader} {text : List Char}

theorem read_append (r : Reader) (front back : List Char) :
    read r (front ++ back) =
      ((read (read r front).1 back).1, (read r front).2 ++ (read (read r front).1 back).2) := by
  induction front generalizing r with
  | nil => rfl
  | cons c front ih =>
      rw [List.cons_append, read, ih, read, List.append_assoc]

/-- Where a text is cut on its way changes nothing. -/
theorem readChunks_eq (r : Reader) (chunks : List (List Char)) :
    readChunks r chunks = read r chunks.flatten := by
  induction chunks generalizing r with
  | nil => rfl
  | cons chunk chunks ih => rw [readChunks, ih, List.flatten_cons, read_append]

theorem read_prefix (r : Reader) {front cs : List Char} (h : front <+: cs) :
    (read r front).2 <+: (read r cs).2 := by
  obtain ⟨back, rfl⟩ := h
  rw [read_append]
  exact List.prefix_append _ _

/-- A text of one line. -/
def OneLine (text : List Char) : Prop := '\n' ∉ text ∧ '\r' ∉ text

/-- Between two events, with no line begun. -/
structure Between (r : Reader) : Prop where
  afterCr : r.afterCr = false
  line : r.line = []
  event : r.event = []
  data : r.data = []

theorem between_start : Between .start := ⟨rfl, rfl, rfl, rfl⟩

theorem push_char {c : Char} (hfresh : r.fresh = false) (hn : c ≠ '\n') (hr : c ≠ '\r') :
    push r c = ({ r with afterCr := false, line := r.line ++ [c] }, none) := by
  rw [push, hfresh, if_neg (by simp), if_neg hn, if_neg hr]

theorem read_line (line event data : List Char) (htext : OneLine text) :
    read ⟨false, false, line, event, data⟩ text =
      (⟨false, false, line ++ text, event, data⟩, []) := by
  induction text generalizing line with
  | nil =>
      rw [List.append_nil]
      rfl
  | cons c text ih =>
      have hn : c ≠ '\n' := fun heq => htext.1 (heq ▸ List.mem_cons_self)
      have hr : c ≠ '\r' := fun heq => htext.2 (heq ▸ List.mem_cons_self)
      have hrest : OneLine text := ⟨fun h => htext.1 (List.mem_cons_of_mem c h),
        fun h => htext.2 (List.mem_cons_of_mem c h)⟩
      rw [read, push_char rfl hn hr]
      dsimp only
      rw [ih _ hrest, List.append_assoc]
      rfl

/-- An event is dispatched with its second LF, and the reader is between two events again. -/
theorem read_write (hr : Between r) (htext : OneLine text) :
    (read r (write text)).2 = [⟨[], text⟩] ∧ Between (read r (write text)).1 := by
  obtain ⟨fresh, afterCr, line, event, data⟩ := r
  obtain ⟨rfl, rfl, rfl, rfl⟩ : afterCr = false ∧ line = [] ∧ event = [] ∧ data = [] :=
    ⟨hr.afterCr, hr.line, hr.event, hr.data⟩
  have hname : read ⟨fresh, false, [], [], []⟩ dataField =
      (⟨false, false, dataField, [], []⟩, []) := by
    cases fresh <;> rfl
  have hline : read ⟨false, false, dataField, [], []⟩ text =
      (⟨false, false, dataField ++ text, [], []⟩, []) := read_line _ _ _ htext
  have hfield : read ⟨false, false, dataField ++ text, [], []⟩ ['\n', '\n'] =
      (⟨false, false, [], [], []⟩, [⟨[], text⟩]) := by
    have hset : endLine ⟨false, false, dataField ++ text, [], []⟩ =
        (⟨false, false, [], [], text ++ ['\n']⟩, none) := rfl
    have hdispatch : endLine ⟨false, false, [], [], text ++ ['\n']⟩ =
        (⟨false, false, [], [], []⟩, some ⟨[], text⟩) := by
      rw [endLine, if_pos rfl, if_neg (by simp), List.dropLast_concat]
    change ((endLine (endLine ⟨false, false, dataField ++ text, [], []⟩).1).1,
      (endLine ⟨false, false, dataField ++ text, [], []⟩).2.toList ++
        ((endLine (endLine ⟨false, false, dataField ++ text, [], []⟩).1).2.toList ++ [])) = _
    rw [hset]
    dsimp only
    rw [hdispatch]
    rfl
  have hall : read ⟨fresh, false, [], [], []⟩ (write text) =
      (⟨false, false, [], [], []⟩, [⟨[], text⟩]) := by
    rw [write, read_append, hname]
    dsimp only
    rw [read_append, hline]
    dsimp only
    rw [hfield]
    rfl
  rw [hall]
  exact ⟨rfl, rfl, rfl, rfl, rfl⟩

theorem read_writes (hr : Between r) {texts : List (List Char)}
    (htexts : ∀ text ∈ texts, OneLine text) :
    (read r (texts.flatMap write)).2 = texts.map (⟨[], ·⟩) ∧
      Between (read r (texts.flatMap write)).1 := by
  induction texts generalizing r with
  | nil => exact ⟨rfl, hr⟩
  | cons text texts ih =>
      obtain ⟨hone, hbetween⟩ := read_write hr (htexts text List.mem_cons_self)
      obtain ⟨hrest, hend⟩ := ih hbetween fun other h => htexts other (List.mem_cons_of_mem text h)
      rw [List.flatMap_cons, read_append]
      refine ⟨?_, hend⟩
      rw [hone, hrest]
      rfl

end CollabIDE.Lib.EventStream
