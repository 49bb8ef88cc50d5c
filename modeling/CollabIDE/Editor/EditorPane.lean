import CollabIDE.Editor.OpenFiles
import CollabIDE.Lib.PathPrefix
/-!
# The editor and its providers

`EditorPane` with `useCollabDocs` and `CodeMirror`: one provider for each open
tab, and one view that switches between editor states, each of them bound to the
text of a provider.  A commit renders with the tabs and the providers as they
are, runs the effects of `CodeMirror` and then those of `useCollabDocs`.
-/

namespace CollabIDE.Editor.EditorPane

open CollabIDE.Editor.OpenFiles CollabIDE.Lib.Machine CollabIDE.Lib.PathPrefix

/-! ## `useCollabDocs` -/

/-- A `CollabProvider`: whether it has text to show, and whether it is destroyed. -/
structure Provider where
  fileId : String
  ready : Bool
  destroyed : Bool
  deriving DecidableEq

/-- All providers there have been, in the order of their construction, and the map with the indices
of those that are alive. -/
structure Providers where
  objects : List Provider
  live : List (String × Nat)
  deriving DecidableEq

/-- `fileIds.join` on NUL. -/
def join (fileIds : List String) : String :=
  String.ofList ([nul].intercalate (fileIds.map String.toList))

/-- `key.split` on NUL. -/
def split (key : String) : List String := (key.toList.splitOn nul).map String.ofList

def wanted (key : String) : List String := if key.toList.length > 0 then split key else []

/-- One round of the first loop. -/
def construct (ps : Providers) (fileId : String) : Providers :=
  if (ps.live.lookup fileId).isSome then ps
  else
    { objects := ps.objects ++ [⟨fileId, false, false⟩]
      live := ps.live ++ [(fileId, ps.objects.length)] }

def destroy (objects : List Provider) (p : Nat) : List Provider :=
  objects.modify p fun provider => { provider with destroyed := true }

/-- One round of the second loop. -/
def discard (keep : List String) (ps : Providers) (entry : String × Nat) : Providers :=
  if entry.1 ∈ keep then ps
  else
    { objects := destroy ps.objects entry.2
      live := ps.live.filter fun other => other.1 ≠ entry.1 }

/-- The effect that depends on the key. -/
def reconcile (ps : Providers) (key : String) : Providers :=
  let built := (wanted key).foldl construct ps
  built.live.foldl (discard (wanted key)) built

/-- The cleanup at the end. -/
def destroyAll (ps : Providers) : Providers :=
  ⟨ps.live.foldl (fun objects entry => destroy objects entry.2) ps.objects, []⟩

/-! ## `CodeMirror` -/

/-- An `EditorState` with all that come of it by transactions: its serial number, and the provider
whose text it is bound to. -/
structure EditorState where
  serial : Nat
  ytext : Nat
  deriving DecidableEq

/-- A mounted `CodeMirror`: the dependency of its second effect, the cached states, and the document
that is shown with the state in the view. -/
structure CodeMirror where
  openKey : Option String
  states : List (String × EditorState)
  showing : Option (String × EditorState)
  deriving DecidableEq

def CodeMirror.mount : CodeMirror := ⟨none, [], none⟩

/-- The second effect: forget the states of closed tabs. -/
def prune (openDocIds : List String) (c : CodeMirror) : CodeMirror :=
  if c.openKey = some (join openDocIds) then c
  else
    { c with
      openKey := some (join openDocIds)
      states := c.states.filter fun entry => entry.1 ∈ split (join openDocIds) }

/-- `states.set`. -/
def store (states : List (String × EditorState)) (entry : String × EditorState) :
    List (String × EditorState) :=
  entry :: states.filter fun other => other.1 ≠ entry.1

/-- The outgoing tab is kept while it is open. -/
def keep (openDocIds : List String) (c : CodeMirror) : List (String × EditorState) :=
  match c.showing with
  | some previous => if previous.1 ∈ openDocIds then store c.states previous else c.states
  | none => c.states

/-- The third effect: show a document, in the state it is left in or in `fresh`. -/
def switchTo (docId : String) (fresh : EditorState) (openDocIds : List String) (c : CodeMirror) :
    CodeMirror :=
  if c.showing.map Prod.fst = some docId then c
  else
    let states := keep openDocIds c
    { c with states, showing := some (docId, (states.lookup docId).getD fresh) }

/-- The state of a document: in the view, or cached. -/
def CodeMirror.stateOf (c : CodeMirror) (docId : String) : Option EditorState :=
  match c.showing with
  | some shown => if shown.1 = docId then some shown.2 else c.states.lookup docId
  | none => c.states.lookup docId

/-! ## The pane -/

/-- `deps` are those of the effect of `useCollabDocs` when it ran last, with the identity of the
user object.  `created` is the next serial number of an editor state. -/
structure State where
  openFiles : OpenFiles.State
  providers : Providers
  editor : Option CodeMirror
  deps : Option (String × Option Nat)
  mounted : Bool
  created : Nat
  deriving DecidableEq

def start : State := ⟨OpenFiles.start, ⟨[], []⟩, none, none, true, 0⟩

/-- The ids of the open tabs. -/
def State.docIds (s : State) : List String := s.openFiles.ids.map FileId.text

/-- The document that is shown, and the provider whose text the editor gets. -/
def State.shown (s : State) : Option (String × Nat) :=
  (s.openFiles.tabs.find? fun tab => some tab.id = s.openFiles.activeId).bind fun active =>
    (s.providers.live.lookup active.id.text).bind fun p =>
      if (s.providers.objects[p]?.map Provider.ready).getD false then some (active.id.text, p)
      else none

/-- A render of the pane and its effects. -/
def commit (user : Option Nat) (s : State) : State :=
  let editor := s.shown.map fun shown =>
    switchTo shown.1 ⟨s.created, shown.2⟩ s.docIds (prune s.docIds (s.editor.getD .mount))
  let deps := (join s.docIds, user)
  let providers :=
    if s.deps = some deps ∨ user = none then s.providers else reconcile s.providers deps.1
  { s with providers, editor, deps := some deps, created := s.created + 1 }

inductive Event
  | act (action : Action)
  | commit (user : Option Nat)
  | ready (p : Nat)
  | unmount

/-- `setReady` of a provider. -/
def setReady (objects : List Provider) (p : Nat) : List Provider :=
  objects.modify p fun provider =>
    if provider.destroyed then provider else { provider with ready := true }

def step (s : State) (ev : Event) : Option State :=
  if s.mounted then
    match ev with
    | .act action => (OpenFiles.step s.openFiles action).map fun openFiles => { s with openFiles }
    | .commit user => some (commit user s)
    | .ready p =>
      some { s with providers := { s.providers with objects := setReady s.providers.objects p } }
    | .unmount =>
      some { s with providers := destroyAll s.providers, editor := none, mounted := false }
  else none

end CollabIDE.Editor.EditorPane
