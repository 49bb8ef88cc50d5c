import CollabIDE.Shared.Languages
import Mathlib.Algebra.BigOperators.Group.List.Basic
import Mathlib.Algebra.GroupWithZero.Nat
/-!
# The frames of a run on the wire

The runner publishes `JSON.stringify(frame)`; the server measures what it
buffers by `payload.length`, the UTF-16 length of that text.  The runner's own
output cap counts the raw bytes of the output instead, so escaping and the
envelope of a frame are outside it.
-/

namespace CollabIDE.Execution.Wire

open CollabIDE.Shared.Languages

/-- UTF-16 units of a character: two outside the BMP. -/
def utf16Size (c : Char) : Nat := if c.toNat < 0x10000 then 1 else 2

/-- `String.length` in JavaScript. -/
def utf16Length (text : String) : Nat := (text.toList.map utf16Size).sum

/-- How `JSON.stringify` writes one character of a string. -/
def escapeChar (c : Char) : String :=
  match c.toNat with
  | 0x22 => "\\\""
  | 0x5c => "\\\\"
  | 0x08 => "\\b"
  | 0x09 => "\\t"
  | 0x0a => "\\n"
  | 0x0c => "\\f"
  | 0x0d => "\\r"
  | n =>
    if n < 0x20 then
      String.ofList ['\\', 'u', '0', '0', Nat.digitChar (n / 16), Nat.digitChar (n % 16)]
    else String.ofList [c]

/-- A JSON string literal. -/
def quote (data : String) : String :=
  "\"" ++ String.ofList (data.toList.flatMap fun c => (escapeChar c).toList) ++ "\""

def statusText : RunStatus → String
  | .ok => "ok"
  | .timeout => "timeout"
  | .error => "error"

/-- `JSON.stringify` of a frame, its keys in the order the runner writes them.
A `message` that is `undefined` is left out. -/
def stringify : RunFrame → String
  | .stdout data => "\x7b\"type\":\"stdout\",\"data\":" ++ quote data ++ "\x7d"
  | .stderr data => "\x7b\"type\":\"stderr\",\"data\":" ++ quote data ++ "\x7d"
  | .exit status exitCode durationMs truncated message =>
    "\x7b\"type\":\"exit\",\"status\":" ++ quote (statusText status) ++
      ",\"exitCode\":" ++ ((exitCode.map toString).getD "null") ++
      ",\"durationMs\":" ++ toString durationMs ++
      ",\"truncated\":" ++ toString truncated ++
      ((message.map fun text => ",\"message\":" ++ quote text).getD "") ++ "\x7d"

/-- What arrives on the channel: a frame the runner encoded, or a text
`JSON.parse` refuses. -/
inductive Payload
  | encoded (frame : RunFrame)
  | unparseable (text : String)
  deriving DecidableEq

/-- `JSON.parse(payload)`. -/
def Payload.parse : Payload → Option RunFrame
  | .encoded frame => some frame
  | .unparseable _ => none

/-- `payload.length`. -/
def Payload.length : Payload → Nat
  | .encoded frame => utf16Length (stringify frame)
  | .unparseable text => utf16Length text

/-- The raw bytes a frame spends of the runner's output cap. -/
def outputBytes : RunFrame → Nat
  | .stdout data | .stderr data => data.utf8ByteSize
  | .exit .. => 0

theorem utf16Length_append (a b : String) :
    utf16Length (a ++ b) = utf16Length a + utf16Length b := by
  simp [utf16Length]

/-- A character that is printed as itself and takes one byte and one unit. -/
structure Plain (c : Char) : Prop where
  escape_eq : escapeChar c = String.ofList [c]
  utf16Size_eq : utf16Size c = 1
  utf8Size_eq : c.utf8Size = 1

theorem flatMap_escapeChar_replicate {c : Char} (hc : Plain c) (n : Nat) :
    (List.replicate n c).flatMap (fun d => (escapeChar d).toList) = List.replicate n c := by
  induction n with
  | zero => rfl
  | succ n ih =>
      rw [List.replicate_succ, List.flatMap_cons, ih, hc.escape_eq, String.toList_ofList]
      rfl

theorem utf16Length_replicate {c : Char} (hc : Plain c) (n : Nat) :
    utf16Length (String.ofList (List.replicate n c)) = n := by
  rw [utf16Length, String.toList_ofList, List.map_replicate, hc.utf16Size_eq,
    List.sum_replicate, Nat.nsmul_eq_mul, Nat.mul_one]

theorem utf16Length_quote_replicate {c : Char} (hc : Plain c) (n : Nat) :
    utf16Length (quote (String.ofList (List.replicate n c))) = n + 2 := by
  have hmark : utf16Length "\"" = 1 := by decide
  rw [quote, String.toList_ofList, flatMap_escapeChar_replicate hc, utf16Length_append,
    utf16Length_append, utf16Length_replicate hc, hmark]
  omega

theorem length_stdout (data : String) :
    (Payload.encoded (.stdout data)).length = utf16Length (quote data) + 25 := by
  have hopen : utf16Length "\x7b\"type\":\"stdout\",\"data\":" = 24 := by decide +kernel
  have hclose : utf16Length "\x7d" = 1 := by decide
  have hsplit : (Payload.encoded (.stdout data)).length =
      utf16Length "\x7b\"type\":\"stdout\",\"data\":" + utf16Length (quote data) +
        utf16Length "\x7d" := by
    rw [← utf16Length_append, ← utf16Length_append]
    rfl
  rw [hsplit, hopen, hclose]
  omega

/-- The envelope and the quotes cost 27 units on top of plain output. -/
theorem length_stdout_replicate {c : Char} (hc : Plain c) (n : Nat) :
    (Payload.encoded (.stdout (String.ofList (List.replicate n c)))).length = n + 27 := by
  rw [length_stdout, utf16Length_quote_replicate hc]

theorem utf8ByteSize_ofList (cs : List Char) :
    (String.ofList cs).utf8ByteSize = (cs.map Char.utf8Size).sum := by
  induction cs with
  | nil => rfl
  | cons c cs ih =>
      have hcons : String.ofList (c :: cs) = String.singleton c ++ String.ofList cs := by
        rw [← String.toList_inj]
        simp
      rw [hcons, String.utf8ByteSize_append, ih, String.utf8ByteSize_singleton, List.map_cons,
        List.sum_cons]

theorem outputBytes_stdout_replicate {c : Char} (hc : Plain c) (n : Nat) :
    outputBytes (.stdout (String.ofList (List.replicate n c))) = n := by
  change (String.ofList (List.replicate n c)).utf8ByteSize = n
  rw [utf8ByteSize_ofList, List.map_replicate, hc.utf8Size_eq, List.sum_replicate,
    Nat.nsmul_eq_mul, Nat.mul_one]

end CollabIDE.Execution.Wire
