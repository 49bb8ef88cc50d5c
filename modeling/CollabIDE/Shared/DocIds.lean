import CollabIDE.Redis.DocBus
import CollabIDE.Search.Strings
import CollabIDE.Shared.Protocol
/-!
# One document an id

A doc id comes off the network, so the functions on doc ids are here on strings
as the runtime has them: UTF-16 units, unpaired surrogates among them.  On the
strings without any they are those of the protocol.  The room map, the update
log and the database of the browser have the doc id itself as their key, the bus
the channel of it.
-/

namespace CollabIDE.Shared.DocIds

open CollabIDE.Execution.Wire (utf16Length utf16Size)
open CollabIDE.Lib.PathPrefix (splitOn_eq_pair splitOn_cons_self splitOn_cons_of_ne)
open CollabIDE.Search.Strings (Text units)
open Protocol (MAX_DOC_ID_PART_LENGTH MAX_DOC_ID_LENGTH isIdChar)

def DOC_ID_SEPARATOR : UInt16 := 0x3a

/-- A document is one file. -/
structure DocRef where
  projectId : Text
  fileId : Text
  deriving DecidableEq

/-- A code of the class `[A-Za-z0-9_-]`. -/
def isIdCode (n : Nat) : Bool :=
  (0x41 ≤ n && n ≤ 0x5a) || (0x61 ≤ n && n ≤ 0x7a) || (0x30 ≤ n && n ≤ 0x39) || n = 0x5f ||
    n = 0x2d

def isIdUnit (u : UInt16) : Bool := isIdCode u.toNat

/-- `/^[A-Za-z0-9_-]+$/`: every unit is in the class, and there is one. -/
def ID_PART_PATTERN (value : Text) : Bool := !value.isEmpty && value.all isIdUnit

def makeDocId (projectId fileId : Text) : Text := projectId ++ DOC_ID_SEPARATOR :: fileId

def isIdPart (value : Text) : Bool :=
  0 < value.length && value.length ≤ MAX_DOC_ID_PART_LENGTH && ID_PART_PATTERN value

/-- `none` for anything that is not a valid doc id. -/
def parseDocId (docId : Text) : Option DocRef :=
  if docId.length = 0 ∨ MAX_DOC_ID_LENGTH < docId.length then none
  else
    match docId.splitOn DOC_ID_SEPARATOR with
    | [projectId, fileId] =>
      if isIdPart projectId && isIdPart fileId then some ⟨projectId, fileId⟩ else none
    | _ => none

/-- What the room map and the update log know a document by. -/
def DocRef.docId (doc : DocRef) : Text := makeDocId doc.projectId doc.fileId

def docChannel (docId : Text) : Text := units "doc:" ++ docId

/-- One to `MAX_DOC_ID_PART_LENGTH` units of the class. -/
def IdPart (value : Text) : Prop :=
  1 ≤ value.length ∧ value.length ≤ MAX_DOC_ID_PART_LENGTH ∧ ∀ u ∈ value, isIdUnit u = true

instance (value : Text) : Decidable (IdPart value) := inferInstanceAs (Decidable (_ ∧ _ ∧ _))

theorem isIdPart_iff {value : Text} : isIdPart value = true ↔ IdPart value := by
  cases value <;> simp [isIdPart, ID_PART_PATTERN, IdPart]

theorem IdPart.separator_not_mem {value : Text} (h : IdPart value) :
    DOC_ID_SEPARATOR ∉ value :=
  fun hmem => absurd (h.2.2 _ hmem) (by decide)

/-- The bound on the whole id leaves out no two valid parts. -/
theorem parseDocId_eq_some {docId : Text} {ref : DocRef} :
    parseDocId docId = some ref ↔ IdPart ref.projectId ∧ IdPart ref.fileId ∧
      makeDocId ref.projectId ref.fileId = docId := by
  constructor
  · intro h
    unfold parseDocId at h
    split at h
    · cases h
    · split at h
      · next projectId fileId hparts =>
          simp only [Option.ite_none_right_eq_some, Bool.and_eq_true, isIdPart_iff,
            Option.some.injEq] at h
          obtain ⟨⟨hproject, hfile⟩, rfl⟩ := h
          exact ⟨hproject, hfile, (splitOn_eq_pair.mp hparts).2.2⟩
      · cases h
  · rintro ⟨hproject, hfile, rfl⟩
    have hparts : (makeDocId ref.projectId ref.fileId).splitOn DOC_ID_SEPARATOR =
        [ref.projectId, ref.fileId] :=
      splitOn_eq_pair.mpr ⟨hproject.separator_not_mem, hfile.separator_not_mem, rfl⟩
    have hlength : ¬ ((makeDocId ref.projectId ref.fileId).length = 0 ∨
        MAX_DOC_ID_LENGTH < (makeDocId ref.projectId ref.fileId).length) := by
      have hp := hproject.2.1
      have hf := hfile.2.1
      simp only [makeDocId, List.length_append, List.length_cons, MAX_DOC_ID_LENGTH]
      omega
    have hvalid : (isIdPart ref.projectId && isIdPart ref.fileId) = true := by
      rw [Bool.and_eq_true, isIdPart_iff, isIdPart_iff]
      exact ⟨hproject, hfile⟩
    rw [parseDocId, if_neg hlength, hparts]
    exact if_pos hvalid

/-- Where the parts of one side hold no separator, equal ids have equal parts. -/
theorem makeDocId_inj {ref : DocRef} {p f : Text} (hproject : IdPart ref.projectId)
    (hfile : IdPart ref.fileId) (h : makeDocId ref.projectId ref.fileId = makeDocId p f) :
    ref = ⟨p, f⟩ := by
  obtain ⟨hp, -, hf⟩ := (List.append_cons_inj_of_notMem hproject.separator_not_mem
    hfile.separator_not_mem).mp h
  cases ref
  rw [DocRef.mk.injEq]
  exact ⟨hp, hf⟩

theorem parseDocId_makeDocId (p f : Text) :
    parseDocId (makeDocId p f) = if IdPart p ∧ IdPart f then some ⟨p, f⟩ else none := by
  by_cases hvalid : IdPart p ∧ IdPart f
  · rw [if_pos hvalid]
    exact parseDocId_eq_some.mpr ⟨hvalid.1, hvalid.2, rfl⟩
  · rw [if_neg hvalid]
    cases hparse : parseDocId (makeDocId p f) with
    | none => rfl
    | some ref =>
        obtain ⟨hproject, hfile, hmake⟩ := parseDocId_eq_some.mp hparse
        obtain rfl := makeDocId_inj hproject hfile hmake
        exact absurd ⟨hproject, hfile⟩ hvalid

theorem docChannel_inj {a b : Text} : docChannel a = docChannel b ↔ a = b :=
  List.append_right_inj _

theorem docId_ne {a b : DocRef} (hproject : IdPart a.projectId) (hfile : IdPart a.fileId)
    (hne : a ≠ b) : a.docId ≠ b.docId ∧ docChannel a.docId ≠ docChannel b.docId := by
  have hdoc : a.docId ≠ b.docId := fun h => hne (makeDocId_inj hproject hfile h)
  exact ⟨hdoc, fun h => hdoc (docChannel_inj.mp h)⟩

/-- A doc id names one document: it is read back exactly where both parts are
ids, nothing is accepted but what it was made from, and two accepted documents
have no key and no channel in common. -/
theorem docId_names_one_document :
    (∀ p f, parseDocId (makeDocId p f) = if IdPart p ∧ IdPart f then some ⟨p, f⟩ else none) ∧
    (∀ s ref, parseDocId s = some ref → makeDocId ref.projectId ref.fileId = s) ∧
    ∀ s t a b, parseDocId s = some a → parseDocId t = some b → a ≠ b →
      a.docId ≠ b.docId ∧ docChannel a.docId ≠ docChannel b.docId := by
  refine ⟨parseDocId_makeDocId, fun s ref h => (parseDocId_eq_some.mp h).2.2, ?_⟩
  intro s t a b hs _ hne
  obtain ⟨hproject, hfile, -⟩ := parseDocId_eq_some.mp hs
  exact docId_ne hproject hfile hne

/-- Two files of one project. -/
theorem docId_names_one_document_siblings :
    (DocRef.mk (units "A-b_1") (units "C-d_2")).docId ≠
        (DocRef.mk (units "A-b_1") (units "C-d_3")).docId ∧
      docChannel (DocRef.mk (units "A-b_1") (units "C-d_2")).docId ≠
        docChannel (DocRef.mk (units "A-b_1") (units "C-d_3")).docId :=
  docId_names_one_document.2.2 (units "A-b_1:C-d_2") (units "A-b_1:C-d_3") _ _
    (by decide) (by decide) (by decide)

/-! ## Strings of characters -/

/-- The units of one character. -/
def charUnits (c : Char) : Text :=
  if c.toNat < 0x10000 then [c.toNat.toUInt16]
  else
    let n := c.toNat - 0x10000
    [(0xd800 + n / 0x400).toUInt16, (0xdc00 + n % 0x400).toUInt16]

theorem units_eq (s : String) : units s = s.toList.flatMap charUnits := rfl

theorem toNat_toUInt16 {n : Nat} (h : n < 0x10000) : n.toUInt16.toNat = n := by
  rw [Nat.toUInt16, UInt16.toNat_ofNat']
  exact Nat.mod_eq_of_lt h

theorem charUnits_of_lt {c : Char} (h : c.toNat < 0x10000) :
    charUnits c = [c.toNat.toUInt16] := if_pos h

theorem surrogate_of_mem_charUnits {c : Char} (h : ¬ c.toNat < 0x10000) {u : UInt16}
    (hu : u ∈ charUnits c) : 0xd800 ≤ u.toNat := by
  have hmax : c.toNat < 0x110000 := by
    rcases c.valid with hvalid | ⟨-, hvalid⟩
    · exact hvalid.trans (by decide)
    · exact hvalid
  rw [charUnits, if_neg h] at hu
  rcases List.mem_pair.mp hu with rfl | rfl
  · rw [toNat_toUInt16 (by omega)]
    omega
  · rw [toNat_toUInt16 (by omega)]
    omega

theorem isIdCode_lt {n : Nat} (h : isIdCode n = true) : n < 0x80 := by
  simp only [isIdCode, Bool.or_eq_true, Bool.and_eq_true, decide_eq_true_eq] at h
  omega

theorem isIdChar_eq (c : Char) : isIdChar c = isIdCode c.toNat := by
  have halphanum : c.isAlphanum = (decide (0x41 ≤ c.toNat ∧ c.toNat ≤ 0x5a) ||
      (decide (0x61 ≤ c.toNat) && decide (c.toNat ≤ 0x7a)) ||
      (decide (0x30 ≤ c.toNat) && decide (c.toNat ≤ 0x39))) := rfl
  have hunderscore : c = '_' ↔ c.toNat = 0x5f := Char.toNat_inj.symm
  have hdash : c = '-' ↔ c.toNat = 0x2d := Char.toNat_inj.symm
  simp [isIdChar, isIdCode, halphanum, hunderscore, hdash]

theorem all_charUnits (c : Char) : (charUnits c).all isIdUnit = isIdChar c := by
  rw [Bool.eq_iff_iff, List.all_eq_true, isIdChar_eq]
  by_cases hc : c.toNat < 0x10000
  · simp only [charUnits_of_lt hc, List.forall_mem_singleton, isIdUnit, toNat_toUInt16 hc]
  · constructor
    · intro h
      have hne : charUnits c ≠ [] := by simp [charUnits, if_neg hc]
      obtain ⟨u, hu⟩ := List.exists_mem_of_ne_nil _ hne
      have hid := isIdCode_lt (h u hu)
      have hhigh := surrogate_of_mem_charUnits hc hu
      omega
    · intro h
      have hid := isIdCode_lt h
      omega

theorem separator_not_mem_charUnits {c : Char} (h : c ≠ ':') :
    DOC_ID_SEPARATOR ∉ charUnits c := by
  intro hmem
  by_cases hc : c.toNat < 0x10000
  · rw [charUnits_of_lt hc, List.mem_singleton] at hmem
    have hnat := congrArg UInt16.toNat hmem
    rw [toNat_toUInt16 hc] at hnat
    exact h (Char.toNat_inj.mp hnat.symm)
  · have hhigh := surrogate_of_mem_charUnits hc hmem
    exact absurd hhigh (by decide)

theorem length_units (s : String) : (units s).length = utf16Length s := by
  rw [units_eq, utf16Length, List.length_flatMap]
  congr 2
  funext c
  unfold utf16Size charUnits
  split <;> rfl

theorem isIdPart_units (value : String) : isIdPart (units value) = Protocol.isIdPart value := by
  have hall : (units value).all isIdUnit = value.toList.all isIdChar := by
    rw [units_eq, List.all_flatMap]
    simp only [all_charUnits]
  rw [Bool.eq_iff_iff, isIdPart_iff, IdPart, Protocol.isIdPart, length_units, ← hall]
  simp [and_assoc, Nat.one_le_iff_ne_zero, Nat.pos_iff_ne_zero]

theorem splitOn_append_of_not_mem {front : Text} (h : DOC_ID_SEPARATOR ∉ front) (s : Text) :
    (front ++ s).splitOn DOC_ID_SEPARATOR =
      (s.splitOn DOC_ID_SEPARATOR).modifyHead (front ++ ·) := by
  induction front with
  | nil =>
      obtain ⟨part, parts, hparts⟩ :=
        List.exists_cons_of_ne_nil (List.splitOn_ne_nil DOC_ID_SEPARATOR s)
      rw [List.nil_append, hparts, List.modifyHead_cons, List.nil_append]
  | cons u front ih =>
      rw [List.mem_cons, not_or] at h
      rw [List.cons_append, splitOn_cons_of_ne (Ne.symm h.1), ih h.2, List.modifyHead_modifyHead]
      rfl

theorem splitOn_flatMap_charUnits (cs : List Char) :
    (cs.flatMap charUnits).splitOn DOC_ID_SEPARATOR =
      (cs.splitOn ':').map (List.flatMap charUnits) := by
  induction cs with
  | nil => rfl
  | cons c cs ih =>
      rw [List.flatMap_cons]
      by_cases hc : c = ':'
      · subst hc
        have hunits : charUnits ':' = [DOC_ID_SEPARATOR] := by decide
        rw [hunits, List.singleton_append, splitOn_cons_self, splitOn_cons_self, ih, List.map_cons]
        rfl
      · obtain ⟨part, parts, hparts⟩ := List.exists_cons_of_ne_nil (List.splitOn_ne_nil ':' cs)
        rw [splitOn_append_of_not_mem (separator_not_mem_charUnits hc), ih, splitOn_cons_of_ne hc,
          hparts, List.modifyHead_cons, List.map_cons, List.modifyHead_cons, List.map_cons,
          List.flatMap_cons]

theorem splitOn_units (s : String) : (units s).splitOn DOC_ID_SEPARATOR =
    ((s.toList.splitOn ':').map String.ofList).map units := by
  rw [units_eq, splitOn_flatMap_charUnits, List.map_map]
  refine congrArg (fun f => List.map f _) (funext fun cs => ?_)
  rw [Function.comp_apply, units_eq, String.toList_ofList]

def DocRef.ofStrings (ref : Protocol.DocRef) : DocRef := ⟨units ref.projectId, units ref.fileId⟩

/-- On strings without unpaired surrogates the parser is that of the protocol. -/
theorem parseDocId_units (docId : String) :
    parseDocId (units docId) = (Protocol.parseDocId docId).map DocRef.ofStrings := by
  rw [parseDocId, Protocol.parseDocId, length_units, splitOn_units]
  split
  · rfl
  · rcases (docId.toList.splitOn ':').map String.ofList with _ | ⟨p, _ | ⟨f, _ | ⟨g, parts⟩⟩⟩
    · rfl
    · rfl
    · simp only [List.map_cons, List.map_nil, isIdPart_units]
      split <;> rfl
    · rfl

theorem makeDocId_units (p f : String) :
    units (Protocol.makeDocId p f) = makeDocId (units p) (units f) := by
  rw [units_eq, Protocol.makeDocId_toList, List.flatMap_append, List.flatMap_cons]
  rfl

theorem docChannel_units (docId : String) :
    units (Redis.DocBus.docChannel docId) = docChannel (units docId) := by
  simp [units_eq, Redis.DocBus.docChannel, docChannel]

end CollabIDE.Shared.DocIds
