import CollabIDE.Execution.Wire
import CollabIDE.Lib.PathPrefix
/-!
# The WebSocket contract

The part of the shared protocol the server uses: the endpoint, the message
types, the close codes and the doc ids.
-/

namespace CollabIDE.Shared.Protocol

open CollabIDE.Execution.Wire
open CollabIDE.Lib.PathPrefix (splitOn_eq_pair)

def WS_PATH : String := "/ws"
def WS_DOC_PARAM : String := "doc"
def MAX_DOC_ID_PART_LENGTH : Nat := 64
def MAX_DOC_ID_LENGTH : Nat := MAX_DOC_ID_PART_LENGTH * 2 + 1

/-- Byte 0 of every binary frame. -/
def MessageType.Sync : Nat := 0
def MessageType.Awareness : Nat := 1

/-- The application-private range of WebSocket close codes. -/
inductive CloseCode
  | BadRequest
  | Unauthenticated
  | Forbidden
  | NotFound
  | Gone
  deriving DecidableEq

def CloseCode.code : CloseCode → Nat
  | .BadRequest => 4400
  | .Unauthenticated => 4401
  | .Forbidden => 4403
  | .NotFound => 4404
  | .Gone => 4409

def closeReason : CloseCode → String
  | .BadRequest => "Malformed request"
  | .Unauthenticated => "Authentication required"
  | .NotFound => "Document not found"
  | .Forbidden => "Not permitted"
  | .Gone => "Document is no longer available"

theorem CloseCode.code_injective : Function.Injective CloseCode.code := by
  intro a b h
  cases a <;> cases b <;> first | rfl | exact absurd h (by decide)

theorem CloseCode.code_private (c : CloseCode) : 4000 ≤ c.code ∧ c.code ≤ 4999 := by
  cases c <;> decide

/-! ## Doc ids -/

/-- A document is one file. -/
structure DocRef where
  projectId : String
  fileId : String
  deriving DecidableEq

def makeDocId (projectId fileId : String) : String := projectId ++ ":" ++ fileId

/-- A character of `ID_PART_PATTERN`. -/
def isIdChar (c : Char) : Bool := c.isAlphanum || c = '_' || c = '-'

def isIdPart (value : String) : Bool :=
  0 < utf16Length value && utf16Length value ≤ MAX_DOC_ID_PART_LENGTH &&
    value.toList.all isIdChar

/-- `none` for anything that is not a valid doc id. -/
def parseDocId (docId : String) : Option DocRef :=
  if utf16Length docId = 0 ∨ MAX_DOC_ID_LENGTH < utf16Length docId then none
  else
    match (docId.toList.splitOn ':').map String.ofList with
    | [projectId, fileId] =>
      if isIdPart projectId && isIdPart fileId then some ⟨projectId, fileId⟩ else none
    | _ => none

/-- The ids a doc id can hold. -/
structure DocRef.Valid (ref : DocRef) : Prop where
  project : isIdPart ref.projectId = true
  file : isIdPart ref.fileId = true

theorem colon_not_mem {value : String} (h : isIdPart value = true) : ':' ∉ value.toList := by
  simp only [isIdPart, Bool.and_eq_true, List.all_eq_true] at h
  exact fun hmem => absurd (h.2 ':' hmem) (by decide)

theorem utf16Length_isIdPart {value : String} (h : isIdPart value = true) :
    0 < utf16Length value ∧ utf16Length value ≤ MAX_DOC_ID_PART_LENGTH := by
  simp only [isIdPart, Bool.and_eq_true, decide_eq_true_eq] at h
  exact h.1

theorem makeDocId_toList (projectId fileId : String) :
    (makeDocId projectId fileId).toList = projectId.toList ++ ':' :: fileId.toList := by
  simp [makeDocId]

theorem parseDocId_eq_some {docId : String} {ref : DocRef} (h : parseDocId docId = some ref) :
    ref.Valid ∧ makeDocId ref.projectId ref.fileId = docId := by
  unfold parseDocId at h
  split at h
  · cases h
  · split at h
    · next projectId fileId hparts =>
        simp only [Option.ite_none_right_eq_some, Bool.and_eq_true, Option.some.injEq] at h
        obtain ⟨⟨hproject, hfile⟩, rfl⟩ := h
        refine ⟨⟨hproject, hfile⟩, ?_⟩
        have hchars : docId.toList.splitOn ':' = [projectId.toList, fileId.toList] := by
          have hback := congrArg (List.map String.toList) hparts
          simpa using hback
        apply String.toList_injective
        rw [makeDocId_toList]
        exact (splitOn_eq_pair.mp hchars).2.2
    · cases h

theorem parseDocId_makeDocId {ref : DocRef} (h : ref.Valid) :
    parseDocId (makeDocId ref.projectId ref.fileId) = some ref := by
  obtain ⟨hproject, hfile⟩ := h
  have hp := utf16Length_isIdPart hproject
  have hf := utf16Length_isIdPart hfile
  have hcolon : utf16Length ":" = 1 := by decide
  have hlength : ¬ (utf16Length (makeDocId ref.projectId ref.fileId) = 0 ∨
      MAX_DOC_ID_LENGTH < utf16Length (makeDocId ref.projectId ref.fileId)) := by
    simp only [makeDocId, utf16Length_append, hcolon, MAX_DOC_ID_LENGTH]
    omega
  have hparts : (makeDocId ref.projectId ref.fileId).toList.splitOn ':' =
      [ref.projectId.toList, ref.fileId.toList] :=
    splitOn_eq_pair.mpr ⟨colon_not_mem hproject, colon_not_mem hfile, (makeDocId_toList _ _).symm⟩
  simp [parseDocId, hlength, hparts, hproject, hfile]

end CollabIDE.Shared.Protocol
