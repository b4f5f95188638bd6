import Semantik.ClientRequests
import Semantik.Lib.RetryAnswers
import Semantik.NoRepeat
import Semantik.RequestText

/-!
# Calls on the wire

All attempts of a call hand the same request to the HTTP client, and ask for nothing else. No path
ends with another one, so the URL of a request tells the endpoint and the base URL, and its body
tells the request. Two different calls never look the same to the server.
-/

namespace Semantik

open JsonText

inductive ApiCall where
  | publish (req : PublishRequest)
  | search (req : SearchRequest)
  | lint (req : LintRequest)
  | subscribe (req : SubscribeRequest)
  | health

namespace ApiCall

def path : ApiCall → String
  | publish _ => pathPublish
  | search _ => pathSearch
  | lint _ => pathLint
  | subscribe _ => pathSubscribe
  | health => pathHealth

def auth : ApiCall → AuthMode
  | publish _ | search _ | subscribe _ => .bearer
  | lint _ | health => .none

def validate (printable : Char → Bool) : ApiCall → Except Error Unit
  | publish req => req.validate printable
  | search req => req.validate
  | lint req => req.validate
  | subscribe req => req.validate
  | health => .ok ()

def body (deps : Dependencies) : ApiCall → List UInt8
  | publish req => req.toVec deps
  | search req => req.toVec deps
  | lint req => req.toVec deps
  | subscribe req => req.toVec deps
  | health => []

end ApiCall

variable {H : Type}

/-- The request of every attempt of a call. -/
def Inner.sends (inner : Inner H) (platform : Platform) (deps : Dependencies) (call : ApiCall) :
    HttpRequest :=
  match call with
  | .subscribe _ => inner.request platform call.path (call.body deps) mimeJson mimeSse call.auth none
  | call => inner.request platform call.path (call.body deps) mimeJson mimeJson call.auth
      inner.readTimeout

section

variable {α : Type} (http : H) (request : HttpRequest) (check : Except Error Unit) (rounds : ℕ)

/-- The attempts of a call, whose checks are these, are this request to this HTTP client: a call that
passes its checks makes its first one, each waits for the answer to the request, and no other answer
makes a difference. -/
structure Sends (call : Wire H → Call α) : Prop where
  first : ∀ wire, 0 ∈ (call wire).calls ↔ check = .ok () ∧ 0 < rounds
  waits : ∀ wire wire' attempt, attempt ∈ (call wire).calls →
    (∀ k ≠ attempt, wire http request k = wire' http request k) →
    (wire' http request attempt).send = none → IsLastAttempt (call wire') attempt none
  only : ∀ wire wire', (∀ attempt, wire http request attempt = wire' http request attempt) →
    call wire = call wire'

theorem sends_failed (err : Error) :
    Sends http request (.error err) rounds fun _ => (failed err : Call α) := by
  refine ⟨fun _ => iff_of_false List.not_mem_nil ?_, ?_, fun _ _ _ => rfl⟩
  · rintro ⟨⟨⟩, -⟩
  · intro wire wire' attempt hmem
    cases hmem

theorem Sends.mapErr {call : Wire H → Call α} (h : Sends http request (.ok ()) rounds call)
    (g : Error → Error) :
    Sends http request check rounds fun wire => preflighted check (mapErr g (call wire)) := by
  match check with
  | .error err => exact sends_failed http request rounds err
  | .ok () =>
      refine ⟨?_, ?_, ?_⟩
      · intro wire
        rw [preflighted, calls_mapErr]
        exact h.first wire
      · intro wire wire' attempt hmem hagree hnone
        rw [preflighted, calls_mapErr] at hmem
        exact (h.waits wire wire' attempt hmem hagree hnone).mapErr g
      · intro wire wire' halike
        exact congrArg (Semantik.mapErr g) (h.only wire wire' halike)

end

def paths : List String := [pathPublish, pathSearch, pathLint, pathSubscribe, pathHealth]

theorem path_mem (call : ApiCall) : call.path ∈ paths := by
  cases call <;> simp [ApiCall.path, paths]

/-- No path ends with another one. -/
theorem path_of_isSuffix : ∀ path ∈ paths, ∀ path' ∈ paths, path.toList <:+ path'.toList →
    path = path' := by decide

theorem path_of_append {call call' : ApiCall} {url url' : String}
    (h : url ++ call.path = url' ++ call'.path) : call.path = call'.path ∧ url = url' := by
  have hchars : url.toList ++ call.path.toList = url'.toList ++ call'.path.toList := by
    rw [← String.toList_append, h, String.toList_append]
  have hpath : call.path = call'.path := by
    obtain hsuffix | hsuffix := List.suffix_or_suffix_of_suffix
      (List.suffix_append url.toList call.path.toList)
      (hchars ▸ List.suffix_append url'.toList call'.path.toList)
    · exact path_of_isSuffix _ (path_mem call) _ (path_mem call') hsuffix
    · exact (path_of_isSuffix _ (path_mem call') _ (path_mem call) hsuffix).symm
  rw [hpath] at hchars
  exact ⟨hpath, String.toList_inj.1 (List.append_cancel_right hchars)⟩

theorem finite_of_validate {printable : Char → Bool} {req : PublishRequest}
    (h : req.validate printable = .ok ()) :
    ∀ item ∈ req.items, ∀ f ∈ item.vector, f.isFinite = true := by
  obtain ⟨item, hitems, -, hitem, -⟩ := PublishRequest.validate_eq_ok_iff.1 h
  rw [hitems]
  intro item' hmem
  rw [List.mem_singleton.1 hmem]
  exact (validatePublishItem_eq_ok_iff.1 hitem).2.2.2

theorem body_inj {deps : Dependencies} (h : WritesJson deps) {call call' : ApiCall}
    (hcheck : call.validate deps.printable = .ok ())
    (hcheck' : call'.validate deps.printable = .ok ()) (hpath : call.path = call'.path)
    (hbody : call.body deps = call'.body deps) : call = call' := by
  cases call <;> cases call'
  case publish.publish =>
    rw [PublishRequest.toVec_inj h (finite_of_validate hcheck) (finite_of_validate hcheck') hbody]
  case search.search => rw [SearchRequest.toVec_inj h hbody]
  case lint.lint => rw [LintRequest.toVec_inj h hbody]
  case subscribe.subscribe => rw [SubscribeRequest.toVec_inj h hbody]
  case health.health => rfl
  -- two endpoints
  all_goals simp [ApiCall.path, pathPublish, pathSearch, pathLint, pathSubscribe, pathHealth] at hpath

/-- What is on the wire tells the call: two calls that pass their checks and send the same request,
from whatever clients, are the same call to the same base URL, with the same key if they
authenticate. -/
theorem sends_inj {deps : Dependencies} (h : WritesJson deps) {inner inner' : Inner H}
    {platform platform' : Platform} {call call' : ApiCall}
    (hcheck : call.validate deps.printable = .ok ())
    (hcheck' : call'.validate deps.printable = .ok ())
    (hsent : inner.sends platform deps call = inner'.sends platform' deps call') :
    call = call' ∧ inner.baseUrl = inner'.baseUrl ∧
      (call.auth = .bearer → inner.authHeader = inner'.authHeader) := by
  have hurl : ∀ (inner : Inner H) (platform : Platform) (call : ApiCall),
      (inner.sends platform deps call).url = inner.baseUrl ++ call.path ∧
        (inner.sends platform deps call).body = call.body deps ∧
        (inner.sends platform deps call).authorization =
          if call.auth = .bearer then some inner.authHeader else none := by
    intro inner platform call
    cases call <;> exact ⟨rfl, rfl, rfl⟩
  obtain ⟨hu, hb, ha⟩ := hurl inner platform call
  obtain ⟨hu', hb', ha'⟩ := hurl inner' platform' call'
  rw [hsent] at hu hb ha
  obtain ⟨hpath, hbase⟩ := path_of_append (hu.symm.trans hu')
  obtain rfl := body_inj h hcheck hcheck' hpath (hb.symm.trans hb')
  refine ⟨rfl, hbase, ?_⟩
  intro hauth
  rw [if_pos hauth] at ha ha'
  exact Option.some.inj (ha.symm.trans ha')

def sampleEscape (c : Char) : List UInt8 :=
  if c = '"' ∨ c = '\\' then 0x5C :: String.utf8EncodeChar c else String.utf8EncodeChar c

theorem escapes_sampleEscape : Escapes sampleEscape := by
  have hhead : ∀ {c d : Char} {s t : List UInt8}, d.toNat < 0x80 →
      String.utf8EncodeChar c ++ s = Utf8.asciiByte d :: t → c = d := by
    intro c d s t hd heq
    have hbyte : String.utf8EncodeChar d = [Utf8.asciiByte d] := Utf8.encodeChar_ascii hd
    rw [← List.singleton_append, ← hbyte] at heq
    exact (Utf8.encodeChar_append_inj heq).1
  refine ⟨?_, ?_⟩
  · intro c _ d _ s t heq
    unfold sampleEscape at heq
    split_ifs at heq with hc hd hd
    · exact Utf8.encodeChar_append_inj (List.cons_eq_cons.1 heq).2
    · exact absurd (.inr (hhead (by decide) heq.symm)) hd
    · exact absurd (.inr (hhead (by decide) heq)) hc
    · exact Utf8.encodeChar_append_inj heq
  · intro c
    unfold sampleEscape
    split_ifs with hc
    · exact ⟨0x5C, _, rfl, by decide⟩
    · obtain ⟨b, rest, henc, -⟩ := Utf8.first_encodeChar c []
      refine ⟨b, rest, henc, ?_⟩
      rintro rfl
      have hquote : c = '"' := by
        apply hhead (s := []) (t := rest) (by decide)
        rw [henc, List.append_nil]
        rfl
      exact hc (.inl hquote)

def sampleJson : Dependencies :=
  { Dependencies.sample with
    encodeStr := fun s => stringText sampleEscape s.toList
    encodeF32 := fun f => encodeNat f.bits.toNat }

theorem writesJson_sampleJson : WritesJson sampleJson where
  encodeStr := ⟨sampleEscape, escapes_sampleEscape, fun _ => rfl⟩
  number f _ := by
    have htext : sampleJson.encodeF32 f = encodeNat f.bits.toNat := rfl
    rw [htext, encodeNat_eq]
    refine ⟨by simp, ?_⟩
    intro b hb
    obtain ⟨c, hc, rfl⟩ := List.mem_map.1 hb
    exact isNumberByte_of_isDigit (Nat.isDigit_of_mem_toDigits (by decide) (by decide) hc)
  exact f g _ _ heq := by
    cases f
    cases g
    rw [F32.mk.injEq]
    exact UInt32.toNat_inj.1 (encodeNat_inj.1 heq)

def samplePublish : PublishRequest where
  items := [{ vector := [⟨0x3F800000⟩, ⟨0⟩, ⟨0xBF000000⟩], text := "\"a\\" }]
  nameSpace := "n"
  model := "m"
  dimensions := 3
  metadata := ⟨[("a", "1"), ("b", "\"")], by decide⟩
  idempotencyKey := some ""
  ack := .durable

/-- Two clients with other HTTP clients and policies. -/
theorem sends_inj_publish :
    let inner : Inner Bool := ⟨true, "u", ⟨bearer "k", true⟩, noRetry, none⟩
    let inner' : Inner Bool :=
      ⟨false, "u", ⟨bearer "k", true⟩, (TransientRetry.new 5).shouldRetry, none⟩
    let call := ApiCall.publish samplePublish
    let call' := ApiCall.publish { samplePublish with
      metadata := ⟨[("a", "1"), ("b", "\"")], by decide⟩ }
    inner.sends samplePlatform sampleJson call = inner'.sends samplePlatform sampleJson call' ∧
      call = call' ∧ inner.baseUrl = inner'.baseUrl ∧ inner.authHeader = inner'.authHeader := by
  intro inner inner' call call'
  have hcheck : call.validate sampleJson.printable = .ok () := by decide
  have hcheck' : call'.validate sampleJson.printable = .ok () := by decide
  have hsent : inner.sends samplePlatform sampleJson call =
      inner'.sends samplePlatform sampleJson call' := rfl
  obtain ⟨hcall, hbase, hauth⟩ := sends_inj writesJson_sampleJson hcheck hcheck' hsent
  exact ⟨hsent, hcall, hbase, hauth rfl⟩

end Semantik
