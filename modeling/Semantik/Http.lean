import Semantik.Lib.PollScript
import Semantik.RustStd

/-!
# HTTP exchanges as the client sees them

The HTTP library is not part of the repository: an exchange is given by what it yields. A body is
the sequence of events its stream produces when polled, with the way it ends.
-/

namespace Semantik

/-- A transport failure of the HTTP library, known by its description. -/
structure ReqwestError where
  description : String
deriving DecidableEq, Repr

/-- A header value, seen through `to_str`: `none` if it is not visible ASCII. -/
structure HeaderValue where
  toStr : Option String
deriving DecidableEq, Repr

/-- The first value of each header, by lower-case name. -/
abbrev HeaderMap := String → Option HeaderValue

inductive BodyEvent where
  | chunk (bytes : List UInt8)
  | pending
deriving DecidableEq, Repr

/-- How a body goes on after its events: it ends, it breaks, or nothing more arrives. -/
inductive BodyEnd where
  | eof
  | error (e : ReqwestError)
  | idle
deriving DecidableEq, Repr

structure Body where
  events : List BodyEvent
  fin : BodyEnd
deriving DecidableEq, Repr

def chunksOf : List BodyEvent → List (List UInt8)
  | [] => []
  | .chunk bytes :: events => bytes :: chunksOf events
  | .pending :: events => chunksOf events

namespace Body

/-- One poll of the body stream. A body that has ended stays ended. -/
def pollNext (body : Body) : Poll (Option (Except ReqwestError (List UInt8))) × Body :=
  match body.events with
  | .chunk bytes :: events => (.ready (some (.ok bytes)), { body with events })
  | .pending :: events => (.pending, { body with events })
  | [] =>
    match body.fin with
    | .eof => (.ready none, body)
    | .error e => (.ready (some (.error e)), { body with fin := .eof })
    | .idle => (.pending, body)

def bytes (body : Body) : Future (Except ReqwestError (List UInt8)) :=
  match body.fin with
  | .eof => some (.ok (chunksOf body.events).flatten)
  | .error e => some (.error e)
  | .idle => none

end Body

structure Response where
  status : ℕ
  headers : HeaderMap
  body : Body

def isSuccess (status : ℕ) : Bool := 200 ≤ status && status < 300

/-- One round trip: what `send` yields, and the clock at the time its answer is decoded. -/
structure Exchange where
  send : Future (Except ReqwestError Response)
  now : SystemTime

end Semantik
