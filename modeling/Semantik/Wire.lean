import Semantik.RustStd

/-!
# Wire types

The JSON objects of the protocol that the client decodes, and the outside code it decodes and
encodes with. Every field that a response omits has its type's default.
-/

namespace Semantik

structure ErrorEnvelope where
  error : String := ""
  message : String := ""
  requestId : String := ""
  retryAfterMs : UInt32 := 0
deriving DecidableEq, Repr

structure PublishResponse where
  messageId : String := ""
  epoch : UInt64 := 0
  seq : UInt64 := 0
  requestId : Option String := none
deriving DecidableEq, Repr

structure ResultItem where
  metadata : HashMap := ⟨[], List.nodup_nil⟩
  content : String := ""
  messageId : String := ""
  nameSpace : String := ""
  score : F32 := ⟨0⟩
deriving DecidableEq, Repr

structure SearchResponse where
  results : List ResultItem := []
  requestId : Option String := none
deriving DecidableEq, Repr

structure LintDiagnostic where
  severity : String := ""
  message : String := ""
  line : UInt32 := 0
  col : UInt32 := 0
  endLine : UInt32 := 0
  endCol : UInt32 := 0
deriving DecidableEq, Repr

structure LintCompletion where
  label : String := ""
  kind : String := ""
  detail : String := ""
deriving DecidableEq, Repr

structure LintResponse where
  normalized : String := ""
  diagnostics : List LintDiagnostic := []
  completions : List LintCompletion := []
  valid : Bool := false
  requestId : Option String := none
deriving DecidableEq, Repr

structure SubscribedEvent where
  subscriptionId : String := ""
deriving DecidableEq, Repr

structure MatchEvent where
  messageId : String := ""
  score : F32 := ⟨0⟩
deriving DecidableEq, Repr

/-- What comes from outside the repository: the JSON library at the types of the client, a decoder
failing with its message, and the Unicode table behind `{:?}`. -/
structure Dependencies where
  errorEnvelope : List UInt8 → Option ErrorEnvelope
  publishResponse : List UInt8 → Except String PublishResponse
  searchResponse : List UInt8 → Except String SearchResponse
  lintResponse : List UInt8 → Except String LintResponse
  subscribedEvent : String → Except String SubscribedEvent
  matchEvent : String → Except String MatchEvent
  encodeStr : String → List UInt8
  encodeF32 : F32 → List UInt8
  printable : Char → Bool

/-- A stand-in that knows one payload of each kind, for closed examples. -/
def Dependencies.sample : Dependencies where
  errorEnvelope body :=
    if body = asBytes "\x7b\"error\":\"backpressure\"\x7d" then some { error := "backpressure" }
    else none
  publishResponse _ := .error "expected value at line 1 column 1"
  searchResponse _ := .error "expected value at line 1 column 1"
  lintResponse _ := .error "expected value at line 1 column 1"
  subscribedEvent data :=
    if data = "\x7b\"subscription_id\":\"s\"\x7d" then .ok ⟨"s"⟩
    else .error "expected value at line 1 column 1"
  matchEvent data :=
    if data = "\x7b\"message_id\":\"m\"\x7d" then .ok { messageId := "m" }
    else .error "expected value at line 1 column 1"
  encodeStr s := 0x22 :: asBytes s ++ [0x22]
  encodeF32 _ := asBytes "0.0"
  printable c := 0x20 ≤ c.toNat && c.toNat < 0x7F

end Semantik
