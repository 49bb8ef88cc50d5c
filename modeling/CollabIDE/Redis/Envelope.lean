import CollabIDE.Lib.Varint
import CollabIDE.Redis.DocBus
/-!
# The envelope of a bus frame

`encodeFrame`, `decodeFrame` and the `messageBuffer` listener of the subscriber.
What is published carries the id of the process that published it, and a process
drops what carries its own.  The encoding of lib0 is a parameter.
-/

namespace CollabIDE.Redis.DocBus

variable {η : Type}

/-- Byte 1 of the envelope. -/
inductive DocFrameKind
  | Sync
  | Awareness
  deriving DecidableEq

def DocFrameKind.code : DocFrameKind → Nat
  | .Sync => 0
  | .Awareness => 1

structure DocFrame where
  kind : DocFrameKind
  payload : List UInt8
  deriving DecidableEq

structure EnvelopedFrame extends DocFrame where
  instanceId : String

/-- `lib0/encoding` and `lib0/decoding`; `none` where decoding throws. -/
structure Lib0 where
  writeVarString : String → List UInt8
  writeVarUint : Nat → List UInt8
  writeVarUint8Array : List UInt8 → List UInt8
  readVarString : List UInt8 → Option (String × List UInt8)
  readVarUint : List UInt8 → Option (Nat × List UInt8)
  readVarUint8Array : List UInt8 → Option (List UInt8 × List UInt8)

def MAX_SAFE_INTEGER : Nat := 9007199254740991

/-- What was written is read back, whatever follows it. -/
structure Lib0.Lawful (L : Lib0) : Prop where
  varString : ∀ s rest, L.readVarString (L.writeVarString s ++ rest) = some (s, rest)
  varUint : ∀ n rest, n ≤ MAX_SAFE_INTEGER →
    L.readVarUint (L.writeVarUint n ++ rest) = some (n, rest)
  varUint8Array : ∀ bytes rest,
    L.readVarUint8Array (L.writeVarUint8Array bytes ++ rest) = some (bytes, rest)

variable (L : Lib0)

def encodeFrame (instanceId : String) (frame : DocFrame) : List UInt8 :=
  L.writeVarString instanceId ++ (L.writeVarUint frame.kind.code ++
    L.writeVarUint8Array frame.payload)

/-- `none` for anything that does not decode, or a kind we do not know. -/
def decodeFrame (bytes : List UInt8) : Option EnvelopedFrame :=
  match L.readVarString bytes with
  -- whichever read throws, the `catch` returns null
  | none => none
  | some (instanceId, bytes) =>
    match L.readVarUint bytes with
    | none => none
    | some (code, bytes) =>
      if code = DocFrameKind.Sync.code then
        (L.readVarUint8Array bytes).map fun read => ⟨⟨.Sync, read.1⟩, instanceId⟩
      else if code = DocFrameKind.Awareness.code then
        (L.readVarUint8Array bytes).map fun read => ⟨⟨.Awareness, read.1⟩, instanceId⟩
      else none

/-- The `messageBuffer` listener of the process `INSTANCE_ID`: the handler it
calls, and the frame it hands over. -/
def onMessageBuffer (INSTANCE_ID : String) (bus : Bus η) (channel : String)
    (message : List UInt8) : Option (η × DocFrame) :=
  match decodeFrame L message with
  | none => none
  | some frame =>
    -- our own echo
    if frame.instanceId = INSTANCE_ID then none
    else (bus.handlers channel).map fun handler => (handler, frame.toDocFrame)

variable {L}

/-- `frame` stands at the front of `bytes`, its kind by number, with `rest` behind. -/
def Carries (L : Lib0) (bytes : List UInt8) (frame : EnvelopedFrame) (rest : List UInt8) : Prop :=
  ∃ afterId afterKind,
    L.readVarString bytes = some (frame.instanceId, afterId) ∧
    L.readVarUint afterId = some (frame.kind.code, afterKind) ∧
    L.readVarUint8Array afterKind = some (frame.payload, rest)

theorem decodeFrame_eq_some {bytes : List UInt8} {frame : EnvelopedFrame} :
    decodeFrame L bytes = some frame ↔ ∃ rest, Carries L bytes frame rest := by
  constructor
  · intro h
    unfold decodeFrame at h
    cases hid : L.readVarString bytes with
    | none => simp [hid] at h
    | some read =>
        obtain ⟨instanceId, afterId⟩ := read
        cases hkind : L.readVarUint afterId with
        | none => simp [hid, hkind] at h
        | some read =>
            obtain ⟨code, afterKind⟩ := read
            simp only [hid, hkind] at h
            split at h
            · next hcode =>
                obtain ⟨⟨payload, rest⟩, hpayload, rfl⟩ := Option.map_eq_some_iff.mp h
                exact ⟨rest, afterId, afterKind, hid, hcode ▸ hkind, hpayload⟩
            · split at h
              · next hcode =>
                  obtain ⟨⟨payload, rest⟩, hpayload, rfl⟩ := Option.map_eq_some_iff.mp h
                  exact ⟨rest, afterId, afterKind, hid, hcode ▸ hkind, hpayload⟩
              · cases h
  · rintro ⟨rest, afterId, afterKind, hid, hkind, hpayload⟩
    obtain ⟨⟨kind, payload⟩, instanceId⟩ := frame
    simp only at hid hkind hpayload
    cases kind <;> simp [decodeFrame, hid, hkind, hpayload, DocFrameKind.code]

theorem carries_encodeFrame (hL : L.Lawful) (instanceId : String) (frame : DocFrame) :
    Carries L (encodeFrame L instanceId frame) ⟨frame, instanceId⟩ [] := by
  refine ⟨_, _, hL.varString _ _, hL.varUint _ _ ?_, ?_⟩
  · cases frame.kind <;> decide
  · have h := hL.varUint8Array frame.payload []
    rwa [List.append_nil] at h

theorem decodeFrame_encodeFrame (hL : L.Lawful) (instanceId : String) (frame : DocFrame) :
    decodeFrame L (encodeFrame L instanceId frame) = some ⟨frame, instanceId⟩ :=
  decodeFrame_eq_some.mpr ⟨[], carries_encodeFrame hL instanceId frame⟩

/-- A process drops what it published itself. -/
theorem onMessageBuffer_own (hL : L.Lawful) (INSTANCE_ID : String) (bus : Bus η)
    (channel : String) (frame : DocFrame) :
    onMessageBuffer L INSTANCE_ID bus channel (encodeFrame L INSTANCE_ID frame) = none := by
  simp only [onMessageBuffer, decodeFrame_encodeFrame hL, if_true]

theorem onMessageBuffer_eq_some {INSTANCE_ID : String} {bus : Bus η} {channel : String}
    {message : List UInt8} {handler : η} {frame : DocFrame}
    (h : onMessageBuffer L INSTANCE_ID bus channel message = some (handler, frame)) :
    bus.handlers channel = some handler := by
  unfold onMessageBuffer at h
  cases hdecode : decodeFrame L message with
  | none => simp [hdecode] at h
  | some enveloped =>
      rw [hdecode] at h
      simp only [Option.ite_none_left_eq_some, Option.map_eq_some_iff, Prod.mk.injEq] at h
      obtain ⟨-, handler, hhandler, rfl, -⟩ := h
      exact hhandler

/-- The base-128 encoding of lib0. -/
def varints : Lib0 where
  writeVarString := Lib.Varint.writeString
  writeVarUint := Lib.Varint.writeNat
  writeVarUint8Array := Lib.Varint.writeBytes
  readVarString := Lib.Varint.readString
  readVarUint := Lib.Varint.readNat
  readVarUint8Array := Lib.Varint.readBytes

theorem lawful_varints : varints.Lawful where
  varString := Lib.Varint.readString_writeString
  varUint n rest _ := Lib.Varint.readNat_writeNat n rest
  varUint8Array := Lib.Varint.readBytes_writeBytes

/-- A frame survives the wire; and of any bytes nothing is decoded but a frame
that stands there with the number of a known kind, and survives it again. -/
theorem frame_survives_wire :
    (∀ instanceId frame, decodeFrame varints (encodeFrame varints instanceId frame) =
      some ⟨frame, instanceId⟩) ∧
    ∀ bytes, decodeFrame varints bytes = none ∨
      ∃ frame, decodeFrame varints bytes = some frame ∧
        (∃ rest, Carries varints bytes frame rest) ∧
        decodeFrame varints (encodeFrame varints frame.instanceId frame.toDocFrame) =
          some frame := by
  refine ⟨decodeFrame_encodeFrame lawful_varints, fun bytes => ?_⟩
  cases hdecode : decodeFrame varints bytes with
  | none => exact .inl rfl
  | some frame =>
      right
      exact ⟨frame, rfl, decodeFrame_eq_some.mp hdecode,
        decodeFrame_encodeFrame lawful_varints frame.instanceId frame.toDocFrame⟩

-- overlong numbers are read, a third kind is not
example : (decodeFrame varints [0x80, 0x00, 0x81, 0x00, 0x80, 0x80, 0x00]).map (·.toDocFrame) =
    some ⟨.Awareness, []⟩ := by decide +kernel
example : (decodeFrame varints [0x00, 0x02, 0x00]).map (·.toDocFrame) = none := by decide +kernel

end CollabIDE.Redis.DocBus
