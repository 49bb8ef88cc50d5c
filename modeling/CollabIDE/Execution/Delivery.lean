import CollabIDE.Execution.Streams
import CollabIDE.Lib.EventStream
import CollabIDE.Lib.Json
import Mathlib.Data.List.Induction
/-!
# The frames of a run in the browser

A frame is written as JSON on the run's channel and once more on the stream of
the response, where each is the data of one event; the browser reads the events
and the JSON in them.  What it gets are the frames its sink was handed, whatever
the program prints and wherever the text of the response is cut.
-/

namespace CollabIDE.Execution.Delivery

open CollabIDE.Lib.EventStream CollabIDE.Lib.Json CollabIDE.Lib.Machine
open CollabIDE.Shared.Languages CollabIDE.Execution.Wire CollabIDE.Execution.Registry
open CollabIDE.Execution.Streams

/-! ## Frames as JSON -/

/-- The fields of a frame in the order the runner writes them. -/
def toValue : RunFrame → Value
  | .stdout data => .obj [("type", .str "stdout"), ("data", .str data)]
  | .stderr data => .obj [("type", .str "stderr"), ("data", .str data)]
  | .exit status exitCode durationMs truncated message =>
    .obj ([("type", .str "exit"), ("status", .str (statusText status)),
      ("exitCode", (exitCode.map Value.int).getD .null), ("durationMs", .int durationMs),
      ("truncated", .bool truncated)] ++ (message.map fun text => ("message", .str text)).toList)

/-- A property of an object; the last field of a name counts. -/
def property (name : String) : Value → Option Value
  | .obj fields => fields.reverse.lookup name
  | _ => none

def string? : Value → Option String
  | .str s => some s
  | _ => none

def statusOf : String → Option RunStatus
  | "ok" => some .ok
  | "timeout" => some .timeout
  | "error" => some .error
  | _ => none

/-- `null`, or a number. -/
def exitCodeOf : Value → Option (Option Int)
  | .null => some none
  | .int n => some (some n)
  | _ => none

/-- A parsed frame, by the fields that are read of it. -/
def ofValue (v : Value) : Option RunFrame :=
  match (property "type" v).bind string? with
  | some "stdout" => ((property "data" v).bind string?).map .stdout
  | some "stderr" => ((property "data" v).bind string?).map .stderr
  | some "exit" => do
    let status ← ((property "status" v).bind string?).bind statusOf
    let exitCode ← (property "exitCode" v).bind exitCodeOf
    let .int durationMs ← property "durationMs" v | none
    let .bool truncated ← property "truncated" v | none
    some (.exit status exitCode durationMs truncated ((property "message" v).bind string?))
  | _ => none

theorem ofValue_toValue (frame : RunFrame) : ofValue (toValue frame) = some frame := by
  cases frame with
  | stdout data => rfl
  | stderr data => rfl
  | exit status exitCode durationMs truncated message =>
      cases status <;> cases exitCode <;> cases message <;> rfl

theorem toList_escapeChar (c : Char) : (escapeChar c).toList = escape c := by
  have hc : Char.ofNat c.toNat = c := Char.ofNat_toNat c
  unfold escapeChar
  split
  iterate 7
    next h =>
      rw [← hc, h]
      rfl
  next n h1 h2 h3 h4 h5 h6 h7 =>
    rcases escape_cases c with ⟨e, he, -⟩ | ⟨hlow, h⟩ | ⟨-, -, hhigh, h⟩
    · have hall : ∀ short ∈ shorts, short.1.toNat ∈ [0x22, 0x5c, 0x08, 0x09, 0x0a, 0x0c, 0x0d] := by
        decide
      have hmem := hall _ he
      simp only [List.mem_cons, List.not_mem_nil, or_false] at hmem
      tauto
    · rw [if_pos hlow, String.toList_ofList, h]
      rfl
    · rw [if_neg (by omega), String.toList_ofList, h]

theorem toList_quote (data : String) :
    (Wire.quote data).toList = Lib.Json.quote data := by
  have hmap : (data.toList.flatMap fun c => (escapeChar c).toList) =
      data.toList.flatMap escape :=
    List.flatMap_congr fun c _ => toList_escapeChar c
  rw [Wire.quote, hmap]
  simp [Lib.Json.quote, mark]

theorem stringify_output (kind data : String) :
    Lib.Json.stringify (.obj [("type", .str kind), ("data", .str data)]) =
      "\x7b\"type\":".toList ++ (Lib.Json.quote kind ++ (",\"data\":".toList ++
        (Lib.Json.quote data ++ "\x7d".toList))) := by
  have htype : Lib.Json.quote "type" = "\"type\"".toList := rfl
  have hdata : Lib.Json.quote "data" = "\"data\"".toList := rfl
  have hopen : "\x7b\"type\":".toList = '\x7b' :: ("\"type\"".toList ++ [':']) := rfl
  have hmiddle : ",\"data\":".toList = ',' :: ("\"data\"".toList ++ [':']) := rfl
  have hclose : "\x7d".toList = ['\x7d'] := rfl
  rw [hopen, hmiddle, hclose]
  simp only [Lib.Json.stringify, stringifyFields, htype, hdata, List.append_assoc,
    List.cons_append, List.nil_append]

theorem toList_stringify (frame : RunFrame) :
    (Wire.stringify frame).toList = Lib.Json.stringify (toValue frame) := by
  cases frame with
  | stdout data =>
      have hopen : "\x7b\"type\":\"stdout\",\"data\":".toList =
          "\x7b\"type\":".toList ++ (Lib.Json.quote "stdout" ++ ",\"data\":".toList) := rfl
      unfold Wire.stringify
      rw [toValue, stringify_output]
      simp only [String.toList_append, toList_quote, hopen, List.append_assoc]
  | stderr data =>
      have hopen : "\x7b\"type\":\"stderr\",\"data\":".toList =
          "\x7b\"type\":".toList ++ (Lib.Json.quote "stderr" ++ ",\"data\":".toList) := rfl
      unfold Wire.stringify
      rw [toValue, stringify_output]
      simp only [String.toList_append, toList_quote, hopen, List.append_assoc]
  | exit status exitCode durationMs truncated message =>
      have hopen : "\x7b\"type\":\"exit\",\"status\":".toList = '\x7b' ::
          (Lib.Json.quote "type" ++ ':' :: (Lib.Json.quote "exit" ++ ',' ::
            (Lib.Json.quote "status" ++ [':']))) := rfl
      have hexitCode : ",\"exitCode\":".toList = ',' :: (Lib.Json.quote "exitCode" ++ [':']) := rfl
      have hduration : ",\"durationMs\":".toList =
          ',' :: (Lib.Json.quote "durationMs" ++ [':']) := rfl
      have htruncated : ",\"truncated\":".toList =
          ',' :: (Lib.Json.quote "truncated" ++ [':']) := rfl
      have hmessage : ",\"message\":".toList = ',' :: (Lib.Json.quote "message" ++ [':']) := rfl
      have hclose : "\x7d".toList = ['\x7d'] := rfl
      have hcode : ((exitCode.map toString).getD "null").toList =
          Lib.Json.stringify ((exitCode.map Value.int).getD .null) := by
        cases exitCode <;> rfl
      have hbool : (toString truncated).toList = Lib.Json.stringify (.bool truncated) := by
        cases truncated <;> rfl
      have hint : (toString durationMs).toList = Lib.Json.stringify (.int durationMs) := rfl
      unfold Wire.stringify
      cases message with
      | none =>
          simp only [String.toList_append, toList_quote, hopen, hexitCode, hduration, htruncated,
            hclose, hcode, hbool, hint, toValue, stringify_obj, stringify_str, stringifyFields,
            Option.map_none,
            Option.getD_none, Option.toList_none, String.toList_empty, List.append_assoc,
            List.cons_append, List.nil_append, List.append_nil]
      | some text =>
          simp only [String.toList_append, toList_quote, hopen, hexitCode, hduration, htruncated,
            hmessage, hclose, hcode, hbool, hint, toValue, stringify_obj, stringify_str,
            stringifyFields,
            Option.map_some, Option.getD_some, Option.toList_some, List.append_assoc,
            List.cons_append, List.nil_append]

/-- `JSON.parse` on the server gives the frame the runner wrote. -/
theorem parse_encoded (frame : RunFrame) :
    (parse (Wire.stringify frame).toList).bind ofValue = (Payload.encoded frame).parse := by
  rw [toList_stringify, parse_stringify, Option.bind_some, ofValue_toValue]
  rfl

theorem oneLine_stringify (frame : RunFrame) : OneLine (Wire.stringify frame).toList := by
  have hprintable := printable_stringify (toValue frame)
  rw [← toList_stringify] at hprintable
  exact ⟨fun h => absurd (hprintable _ h) (by decide), fun h => absurd (hprintable _ h) (by decide)⟩

/-! ## The response and the browser -/

/-- A response of `streamRun`: its body so far, and whether it was written to after its end. -/
structure Response where
  body : List Char
  ended : Bool
  failed : Bool

def Response.start : Response := ⟨[], false, false⟩

def Response.write (res : Response) (text : List Char) : Response :=
  if res.ended then { res with failed := true } else { res with body := res.body ++ text }

/-- What is written of a frame. -/
def eventText (frame : RunFrame) : List Char :=
  Lib.EventStream.write (Wire.stringify frame).toList

/-- `send`. -/
def send (res : Response) (frame : RunFrame) : Response :=
  let res := res.write (eventText frame)
  if frame.isExit then { res with ended := true } else res

/-- The response after all its sink was handed. -/
def respond (frames : List RunFrame) : Response := frames.foldl send .start

/-- The `message` events of a response that comes in chunks, parsed. -/
def received (chunks : List (List Char)) : List RunFrame :=
  ((readChunks .start chunks).2.filter fun message =>
    message.event = [] ∨ message.event = "message".toList).filterMap fun message =>
      (parse message.data).bind ofValue

/-- No exit frame but the last. -/
def ExitLast (frames : List RunFrame) : Prop :=
  ∀ front frame back, frames = front ++ frame :: back → frame.isExit = true → back = []

theorem exitLast_of_no_exit {frames : List RunFrame}
    (h : ∀ frame ∈ frames, frame.isExit = false) : ExitLast frames := by
  rintro front frame back rfl hexit
  rw [h frame (by simp)] at hexit
  cases hexit

theorem exitLast_concat {frames : List RunFrame} (h : ∀ frame ∈ frames, frame.isExit = false)
    (last : RunFrame) : ExitLast (frames ++ [last]) := by
  intro front frame back heq hexit
  rcases List.eq_nil_or_concat back with rfl | ⟨back, other, rfl⟩
  · rfl
  · rw [List.concat_eq_append, ← List.cons_append, ← List.append_assoc] at heq
    have hmem : frame ∈ frames := by
      rw [(List.append_inj' heq rfl).1]
      simp
    rw [h frame hmem] at hexit
    cases hexit

theorem send_open (body : List Char) (frame : RunFrame) :
    send ⟨body, false, false⟩ frame = ⟨body ++ eventText frame, frame.isExit, false⟩ := by
  unfold send
  cases frame.isExit <;> rfl

theorem respond_eq {frames : List RunFrame} (h : ExitLast frames) :
    respond frames = ⟨frames.flatMap eventText, frames.any RunFrame.isExit, false⟩ := by
  induction frames using List.reverseRecOn with
  | nil => rfl
  | append_singleton frames last ih =>
      have hopen : ∀ frame ∈ frames, frame.isExit = false := by
        intro frame hframe
        by_contra hexit
        obtain ⟨front, back, rfl⟩ := List.append_of_mem hframe
        have hnil := h front frame (back ++ [last]) (by simp) (eq_true_of_ne_false hexit)
        simp at hnil
      have hany : frames.any RunFrame.isExit = false := by simpa using hopen
      rw [respond, List.foldl_append, ← respond, ih (exitLast_of_no_exit hopen), hany,
        List.foldl_cons, List.foldl_nil, send_open, List.flatMap_append, List.flatMap_singleton,
        List.any_append, hany, List.any_cons, List.any_nil, Bool.or_false, Bool.false_or]

theorem readChunks_events {frames : List RunFrame} {chunks : List (List Char)}
    (h : chunks.flatten = frames.flatMap eventText) : (readChunks .start chunks).2 =
      frames.map fun frame => ⟨[], (Wire.stringify frame).toList⟩ := by
  have htexts : ∀ text ∈ frames.map fun frame => (Wire.stringify frame).toList, OneLine text := by
    intro text htext
    obtain ⟨frame, -, rfl⟩ := List.mem_map.mp htext
    exact oneLine_stringify frame
  have hread := (read_writes between_start htexts).1
  rw [List.flatMap_map, List.map_map] at hread
  rw [readChunks_eq, h]
  exact hread

/-- The frames of a response are read in the browser as they were sent, however its text is cut. -/
theorem received_eq {frames : List RunFrame} {chunks : List (List Char)}
    (h : chunks.flatten = frames.flatMap eventText) : received chunks = frames := by
  have hplain : ∀ message ∈ frames.map fun frame => Message.mk [] (Wire.stringify frame).toList,
      decide (message.event = [] ∨ message.event = "message".toList) = true := by
    intro message hmessage
    obtain ⟨frame, -, rfl⟩ := List.mem_map.mp hmessage
    exact decide_eq_true (.inl rfl)
  rw [received, readChunks_events h, List.filter_eq_self.mpr hplain, List.filterMap_map]
  calc frames.filterMap _ = frames.filterMap some :=
        List.filterMap_congr fun frame _ => parse_encoded frame
    _ = frames := List.filterMap_some

theorem received_prefix {frames : List RunFrame} {chunks : List (List Char)}
    (h : chunks.flatten <+: frames.flatMap eventText) : received chunks <+: frames := by
  obtain ⟨rest, hrest⟩ := h
  have hall : received (chunks ++ [rest]) = frames := by
    apply received_eq
    rw [List.flatten_append, ← hrest, List.flatten_cons, List.flatten_nil, List.append_nil]
  have hfront : (readChunks .start chunks).2 <+: (readChunks .start (chunks ++ [rest])).2 := by
    rw [readChunks_eq, readChunks_eq, List.flatten_append]
    exact read_prefix _ (List.prefix_append _ _)
  rw [← hall]
  exact (hfront.filter _).filterMap _

/-! ## Runs -/

/-- The frame an event publishes. -/
def frameOf : Streams.Event → Option RunFrame
  | .received payload => payload.parse
  | .streamed .. | .disconnected _ | .expired => none

/-- Every client and the buffer have some of the frames in their order, an exit frame last. -/
structure Delivers (entry : RunEntry) (frames : List RunFrame) : Prop where
  handed : ∀ client, (entry.handedTo client).Sublist frames
  buffered : entry.buffered.Sublist frames
  handedLast : ∀ client, ExitLast (entry.handedTo client)
  bufferedLast : ExitLast entry.buffered

variable {jobId : String} {reg : RunRegistry} {entry : RunEntry} {s t : State}
  {frames : List RunFrame}

theorem Delivers.of_eq {entry' : RunEntry} (h : Delivers entry frames)
    (hhanded : entry'.handed = entry.handed) (hbuffered : entry'.buffered = entry.buffered) :
    Delivers entry' frames where
  handed client := by
    rw [RunEntry.handedTo, hhanded]
    exact h.handed client
  buffered := hbuffered ▸ h.buffered
  handedLast client := by
    rw [RunEntry.handedTo, hhanded]
    exact h.handedLast client
  bufferedLast := hbuffered ▸ h.bufferedLast

theorem handedTo_append_self (entry : RunEntry) (client : Client) (calls : List RunFrame) :
    (((entry.handed ++ calls.map (client, ·)).filter fun call => call.1 = client).map Prod.snd) =
      entry.handedTo client ++ calls := by
  simp [RunEntry.handedTo, List.filter_map, Function.comp_def]

theorem handedTo_append_of_ne (entry : RunEntry) {client other : Client} (hne : other ≠ client)
    (calls : List RunFrame) :
    (((entry.handed ++ calls.map (client, ·)).filter fun call => call.1 = other).map Prod.snd) =
      entry.handedTo other := by
  simp [RunEntry.handedTo, List.filter_map, Function.comp_def, Ne.symm hne]

theorem Delivers.attach {entry' : RunEntry} {client : Client} (h : Delivers entry frames)
    (hfresh : ∀ call ∈ entry.handed, call.1 ≠ client)
    (hhanded : entry'.handed = entry.handed ++ entry.buffered.map (client, ·))
    (hbuffered : entry'.buffered = []) : Delivers entry' frames := by
  have hnone : entry.handedTo client = [] := by
    rw [RunEntry.handedTo, List.map_eq_nil_iff, List.filter_eq_nil_iff]
    exact fun call hcall => by simpa using hfresh call hcall
  have hto (other : Client) : entry'.handedTo other =
      if other = client then entry.buffered else entry.handedTo other := by
    rw [RunEntry.handedTo, hhanded]
    split
    · next heq => rw [heq, handedTo_append_self, hnone, List.nil_append]
    · next hne => rw [handedTo_append_of_ne entry hne]
  refine ⟨fun other => ?_, ?_, fun other => ?_, ?_⟩
  · rw [hto]
    split
    · exact h.buffered
    · exact h.handed other
  · rw [hbuffered]
    exact List.nil_sublist _
  · rw [hto]
    split
    · exact h.bufferedLast
    · exact h.handedLast other
  · rw [hbuffered]
    exact exitLast_of_no_exit fun _ hframe => absurd hframe List.not_mem_nil

/-- A frame is handed to the sink, is kept or is lost. -/
theorem Delivers.sinkOrBuffer (h : Delivers entry frames)
    (hopen : (∀ call ∈ entry.handed, call.2.isExit = false) ∧
      ∀ frame ∈ entry.buffered, frame.isExit = false) (frame : RunFrame) (payload : Payload) :
    Delivers (sinkOrBuffer entry frame payload) (frames ++ [frame]) := by
  have hmore {kept : List RunFrame} (hkept : kept.Sublist frames) :
      kept.Sublist (frames ++ [frame]) := hkept.trans (List.sublist_append_left _ _)
  unfold Registry.sinkOrBuffer
  cases hsink : entry.sink with
  | some client =>
      have hto (other : Client) : (entry.hand client frame).handedTo other =
          if other = client then entry.handedTo client ++ [frame] else entry.handedTo other := by
        have hhand : (entry.hand client frame).handed =
            entry.handed ++ [frame].map (client, ·) := rfl
        rw [RunEntry.handedTo, hhand]
        split
        · next heq => rw [heq, handedTo_append_self]
        · next hne => rw [handedTo_append_of_ne entry hne]
      have hto_open : ∀ f ∈ entry.handedTo client, f.isExit = false := by
        intro f hf
        obtain ⟨call, hcall, rfl⟩ := List.mem_map.mp hf
        exact hopen.1 call (List.mem_of_mem_filter hcall)
      refine ⟨fun other => ?_, hmore h.buffered, fun other => ?_, h.bufferedLast⟩
      · rw [hto]
        split
        · exact (h.handed client).append (List.Sublist.refl _)
        · exact hmore (h.handed other)
      · rw [hto]
        split
        · exact exitLast_concat hto_open frame
        · exact h.handedLast other
  | none =>
      dsimp only
      split
      · exact ⟨fun client => hmore (h.handed client), h.buffered.append (List.Sublist.refl _),
          h.handedLast, exitLast_concat hopen.2 frame⟩
      · exact ⟨fun client => hmore (h.handed client), hmore h.buffered, h.handedLast,
          h.bufferedLast⟩

/-! ### What the operations of the registry leave of the entry -/

theorem object_remove (hobj : reg.object jobId = some entry) :
    ∃ entry', (remove reg jobId).object jobId = some entry' ∧ entry'.handed = entry.handed ∧
      entry'.buffered = entry.buffered := by
  simp only [remove, hobj]
  split
  · exact ⟨_, store_object _ _ _, rfl, rfl⟩
  · exact ⟨entry, hobj, rfl, rfl⟩

theorem object_attach (client : Client) (hobj : reg.object jobId = some entry)
    (hin : jobId ∈ reg.entries) :
    ∃ entry', (attach reg jobId client).1.object jobId = some entry' ∧
      entry'.handed = entry.handed ++ entry.buffered.map (client, ·) ∧ entry'.buffered = [] := by
  cases hterm : entry.terminal with
  | false =>
      rw [attach_live client hobj hin hterm]
      exact ⟨_, store_object _ _ _, rfl, rfl⟩
  | true =>
      rw [attach_over client hobj hin hterm]
      exact ⟨_, store_object _ _ _, rfl, rfl⟩

theorem object_detach (hobj : reg.object jobId = some entry) :
    ∃ entry', (detach reg jobId).object jobId = some entry' ∧ entry'.handed = entry.handed ∧
      entry'.buffered = entry.buffered := by
  simp only [detach, hobj]
  split
  · exact ⟨_, store_object _ _ _, rfl, rfl⟩
  · exact ⟨entry, hobj, rfl, rfl⟩

theorem object_close (hobj : reg.object jobId = some entry) :
    ∃ entry', (close reg jobId).object jobId = some entry' ∧ entry'.handed = entry.handed ∧
      entry'.buffered = entry.buffered := by
  by_cases hin : jobId ∈ reg.entries
  · rw [close_eq hobj hin]
    exact ⟨_, store_object _ _ _, rfl, rfl⟩
  · rw [close, if_neg hin]
    exact ⟨entry, hobj, rfl, rfl⟩

theorem object_receive (payload : Payload) (hobj : reg.object jobId = some entry) :
    ∃ entry', (receive reg entry jobId payload).object jobId = some entry' ∧
      (payload.parse = none → entry' = entry) ∧
      ∀ frame, payload.parse = some frame →
        entry'.handed = (sinkOrBuffer entry frame payload).handed ∧
        entry'.buffered = (sinkOrBuffer entry frame payload).buffered := by
  unfold receive
  cases payload.parse with
  | none => exact ⟨entry, hobj, fun _ => rfl, fun _ h => absurd h (Option.some_ne_none _).symm⟩
  | some frame =>
      have hrest (entry' : RunEntry)
          (hhanded : entry'.handed = (sinkOrBuffer entry frame payload).handed)
          (hbuffered : entry'.buffered = (sinkOrBuffer entry frame payload).buffered) :
          (some frame = none → entry' = entry) ∧ ∀ f, some frame = some f →
            entry'.handed = (sinkOrBuffer entry f payload).handed ∧
            entry'.buffered = (sinkOrBuffer entry f payload).buffered := by
        refine ⟨fun h => absurd h (Option.some_ne_none _), fun f hf => ?_⟩
        rw [← Option.some.inj hf]
        exact ⟨hhanded, hbuffered⟩
      dsimp only
      split
      · split
        · obtain ⟨entry', hobj', hhanded, hbuffered⟩ := object_remove (store_object reg jobId
            (releaseSubscriber { sinkOrBuffer entry frame payload with terminal := true }))
          exact ⟨entry', hobj', hrest entry' hhanded hbuffered⟩
        · exact ⟨_, store_object _ _ _, hrest _ rfl rfl⟩
      · exact ⟨_, store_object _ _ _, hrest _ rfl rfl⟩

theorem delivers_step {ev : Streams.Event} (hinv : Inv jobId s entry)
    (h : Delivers entry frames) (hstep : Streams.step jobId s ev = some t) :
    ∃ entry', Inv jobId t entry' ∧ Delivers entry' (frames ++ (frameOf ev).toList) := by
  obtain ⟨entry', hinv'⟩ := inv_step hinv hstep
  have hsame {found : RunEntry} (hfound : t.reg.object jobId = some found) : found = entry' :=
    Option.some.inj (hfound.symm.trans hinv'.object_eq)
  refine ⟨entry', hinv', ?_⟩
  cases ev with
  | streamed projectId client =>
      rw [frameOf, Option.toList_none, List.append_nil]
      rw [Streams.step, Option.ite_none_left_eq_some] at hstep
      obtain ⟨hfresh, hstep⟩ := hstep
      split at hstep
      · next hfound =>
          obtain rfl := Option.some.inj hstep
          obtain ⟨found, hfind⟩ := Option.isSome_iff_exists.mp hfound
          obtain ⟨-, hin, -⟩ := findRun_eq_some.mp hfind
          obtain ⟨entry'', hobj, hhanded, hbuffered⟩ := object_attach client hinv.object_eq hin
          obtain rfl := hsame hobj
          refine h.attach (fun call hcall heq => hfresh ?_) hhanded hbuffered
          rw [← heq]
          exact hinv.handed_served call hcall
      · obtain rfl := Option.some.inj hstep
        obtain rfl := hsame hinv.object_eq
        exact h
  | received payload =>
      obtain ⟨reg', hmessage, rfl⟩ := Option.map_eq_some_iff.mp hstep
      rw [Registry.step, hinv.object_eq] at hmessage
      dsimp only at hmessage
      rw [Option.ite_none_left_eq_some] at hmessage
      obtain ⟨hlive, hreceive⟩ := hmessage
      obtain rfl := Option.some.inj hreceive
      have hterm : entry.terminal = false := eq_false_of_ne_true hlive
      obtain ⟨entry'', hobj, hnone, hsome⟩ := object_receive payload hinv.object_eq
      obtain rfl := hsame hobj
      rw [frameOf]
      cases hparse : payload.parse with
      | none =>
          rw [Option.toList_none, List.append_nil, hnone hparse]
          exact h
      | some frame =>
          obtain ⟨hhanded, hbuffered⟩ := hsome frame hparse
          exact (h.sinkOrBuffer (hinv.no_exit hterm) frame payload).of_eq hhanded hbuffered
  | disconnected client =>
      rw [frameOf, Option.toList_none, List.append_nil]
      rw [Streams.step, Option.ite_none_right_eq_some] at hstep
      obtain rfl := Option.some.inj hstep.2
      obtain ⟨entry'', hobj, hhanded, hbuffered⟩ := object_detach hinv.object_eq
      obtain rfl := hsame hobj
      exact h.of_eq hhanded hbuffered
  | expired =>
      rw [frameOf, Option.toList_none, List.append_nil]
      rw [Streams.step, Option.ite_none_right_eq_some] at hstep
      obtain rfl := Option.some.inj hstep.2
      obtain ⟨entry'', hobj, hhanded, hbuffered⟩ := object_close hinv.object_eq
      obtain rfl := hsame hobj
      exact h.of_eq hhanded hbuffered

theorem delivers_run {events : List Streams.Event} (hinv : Inv jobId s entry)
    (h : Delivers entry frames) (hrun : run (Streams.step jobId) s events = some t) :
    ∃ entry', Inv jobId t entry' ∧ Delivers entry' (frames ++ events.filterMap frameOf) := by
  induction events generalizing s entry frames with
  | nil =>
      obtain rfl := Option.some.inj hrun
      exact ⟨entry, hinv, by rw [List.filterMap_nil, List.append_nil]; exact h⟩
  | cons ev events ih =>
      obtain ⟨u, hu, hrest⟩ := run_cons_eq_some.mp hrun
      obtain ⟨entry', hinv', h'⟩ := delivers_step hinv h hu
      obtain ⟨entry'', hinv'', h''⟩ := ih hinv' h' hrest
      refine ⟨entry'', hinv'', ?_⟩
      have hfilter : (frameOf ev).toList ++ events.filterMap frameOf =
          (ev :: events).filterMap frameOf := by
        cases hev : frameOf ev <;> simp [hev]
      rw [← hfilter, ← List.append_assoc]
      exact h''

theorem delivers_newEntry (jobId projectId userId : String) :
    Delivers (newEntry jobId projectId userId) [] where
  handed _ := List.Sublist.refl _
  buffered := List.Sublist.refl _
  handedLast _ := exitLast_of_no_exit fun _ h => absurd h List.not_mem_nil
  bufferedLast := exitLast_of_no_exit fun _ h => absurd h List.not_mem_nil

/-- Whatever streams come and go and wherever the text of a response is cut, a browser reads from it
published frames of the run in their order, each once, all that were handed to its sink once it has
the whole text.  Nothing is written behind the exit frame. -/
theorem received_of_run {reg reg' : RunRegistry} {projectId userId : String}
    {events : List Streams.Event}
    (hopened : Registry.step reg (.opened jobId projectId userId) = some reg')
    (hrun : run (Streams.step jobId) ⟨reg', [], []⟩ events = some s) (client : Client) :
    ∃ entry, s.reg.object jobId = some entry ∧
      (respond (entry.handedTo client)).failed = false ∧
      ∀ chunks : List (List Char), chunks.flatten <+: (respond (entry.handedTo client)).body →
        (received chunks).Sublist (events.filterMap frameOf) ∧
        ExitLast (received chunks) ∧
        (chunks.flatten = (respond (entry.handedTo client)).body →
          received chunks = entry.handedTo client) := by
  obtain ⟨entry, hinv, h⟩ :=
    delivers_run (inv_opened hopened) (delivers_newEntry jobId projectId userId) hrun
  rw [List.nil_append] at h
  have hlast := h.handedLast client
  have hrespond := respond_eq hlast
  refine ⟨entry, hinv.object_eq, by rw [hrespond], fun chunks hchunks => ?_⟩
  rw [hrespond] at hchunks ⊢
  have hfront := received_prefix hchunks
  refine ⟨hfront.sublist.trans (h.handed client), ?_, fun hwhole => received_eq hwhole⟩
  intro front frame back heq hexit
  obtain ⟨rest, hrest⟩ := hfront
  rw [heq, List.append_assoc, List.cons_append] at hrest
  exact (List.append_eq_nil_iff.mp (hlast front frame (back ++ rest) hrest.symm hexit)).1

/-- Two lines of output and the exit frame, on one stream. -/
theorem received_of_run_lines : ∃ reg' s entry,
    Registry.step .empty (.opened "job-1" "project-1" "user-1") = some reg' ∧
    run (Streams.step "job-1") ⟨reg', [], []⟩
      [.streamed "project-1" 0, .received (.encoded (.stdout "a\nb\n")),
        .received (.encoded exitZero)] = some s ∧
    s.reg.object "job-1" = some entry ∧
    received [(respond (entry.handedTo 0)).body] = entry.handedTo 0 := by
  obtain ⟨reg', hopened⟩ : ∃ reg', Registry.step .empty
      (.opened "job-1" "project-1" "user-1") = some reg' := ⟨_, rfl⟩
  obtain ⟨hobj, hin⟩ := opened_eq_some hopened
  obtain ⟨s, hrun⟩ : ∃ s, run (Streams.step "job-1") ⟨reg', [], []⟩
      [.streamed "project-1" 0, .received (.encoded (.stdout "a\nb\n")),
        .received (.encoded exitZero)] = some s := by
    cases hopened
    exact ⟨_, rfl⟩
  obtain ⟨entry, hentry, -, hreceived⟩ := received_of_run hopened hrun 0
  have hflat : [(respond (entry.handedTo 0)).body].flatten = (respond (entry.handedTo 0)).body := by
    rw [List.flatten_cons, List.flatten_nil, List.append_nil]
  obtain ⟨-, -, hwhole⟩ := hreceived [(respond (entry.handedTo 0)).body]
    ⟨[], by rw [hflat, List.append_nil]⟩
  exact ⟨reg', s, entry, hopened, hrun, hentry, hwhole hflat⟩

end CollabIDE.Execution.Delivery
