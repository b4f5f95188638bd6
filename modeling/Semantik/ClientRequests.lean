import Semantik.ClientBuilder
import Semantik.Subscribe

/-!
# The requests of a client

Every attempt is one POST below the base URL. The endpoints differ in their path, in whether they
authenticate and in whether they bound the wait for the response. The calls of a client are those of
its retry policy against the network that its requests make of the wire.
-/

namespace Semantik

open Setting

inductive AuthMode where
  | none
  | bearer
deriving DecidableEq, Repr

def mimeJson : String := "application/json"

def pathHealth : String := "/v1/health"

def pathLint : String := "/v1/lint"

def pathPublish : String := "/v1/publish"

def pathSearch : String := "/v1/search"

def pathSubscribe : String := "/v1/subscribe"

def version : String := "0.1.0"

structure Platform where
  os : String
  arch : String

def userAgent (platform : Platform) : String :=
  s!"noetive-sdk-rust/{version} (rust; {platform.os}/{platform.arch})"

inductive Method where
  | get
  | post
deriving DecidableEq, Repr

structure HttpRequest where
  method : Method
  url : String
  contentType : String
  accept : String
  userAgent : String
  body : List UInt8
  authorization : Option AuthHeader
  timeout : Option Duration
deriving DecidableEq, Repr

/-- What an HTTP client makes of a request, by attempt. -/
abbrev Wire (H : Type) := H → HttpRequest → UInt32 → Exchange

variable {H : Type}

namespace Inner

variable (inner : Inner H) (platform : Platform) (wire : Wire H) (deps : Dependencies)

/-- The request that `sendRaw` builds. -/
def request (path : String) (body : List UInt8) (contentType accept : String) (auth : AuthMode)
    (readTimeout : Option Duration) : HttpRequest where
  method := .post
  url := s!"{inner.baseUrl}{path}"
  contentType
  accept
  userAgent := Semantik.userAgent platform
  body
  authorization := if auth = .bearer then some inner.authHeader else Option.none
  timeout := readTimeout

def jsonNetwork (path : String) (auth : AuthMode) : Network := fun body attempt =>
  wire inner.http
    (inner.request platform path body mimeJson mimeJson auth inner.readTimeout) attempt

def streamNetwork : Network := fun body attempt =>
  wire inner.http
    (inner.request platform pathSubscribe body mimeJson mimeSse .bearer Option.none) attempt

def publish (req : PublishRequest) (rounds : ℕ) : Call PublishResponse :=
  Client.publish ⟨inner.retry⟩ deps (inner.jsonNetwork platform wire pathPublish .bearer) req rounds

def search (req : SearchRequest) (rounds : ℕ) : Call SearchResponse :=
  Client.search ⟨inner.retry⟩ deps (inner.jsonNetwork platform wire pathSearch .bearer) req rounds

def lint (req : LintRequest) (rounds : ℕ) : Call LintResponse :=
  Client.lint ⟨inner.retry⟩ deps (inner.jsonNetwork platform wire pathLint .none) req rounds

def subscribe (req : SubscribeRequest) (rounds : ℕ) : Call Subscription :=
  Client.subscribe ⟨inner.retry⟩ deps (inner.streamNetwork platform wire) req rounds

def health : Future (Except Error Unit) :=
  Client.health deps (inner.jsonNetwork platform wire pathHealth .none [] 0)

end Inner

inductive Kind where
  | apiKey
  | baseUrl
  | httpClient
  | retry
  | connectTimeout
  | readTimeout
deriving DecidableEq, Repr

/-- The last settings of every other kind are the same. -/
structure SameBut (kind : Kind) (settings settings' : List (Setting H)) : Prop where
  apiKey : kind ≠ .apiKey → lastOf asApiKey settings = lastOf asApiKey settings'
  baseUrl : kind ≠ .baseUrl → lastOf asBaseUrl settings = lastOf asBaseUrl settings'
  httpClient : kind ≠ .httpClient → lastOf asHttpClient settings = lastOf asHttpClient settings'
  retry : kind ≠ .retry → lastOf asRetry settings = lastOf asRetry settings'
  connectTimeout : kind ≠ .connectTimeout →
    lastOf asConnectTimeout settings = lastOf asConnectTimeout settings'
  readTimeout : kind ≠ .readTimeout →
    lastOf asReadTimeout settings = lastOf asReadTimeout settings'

section

variable {lib : HttpLibrary H} {settings settings' : List (Setting H)} {key key' : String}
  {inner inner' : Inner H} (h : Configured lib settings key inner)
  (h' : Configured lib settings' key' inner')

include h h'

/-- Base URLs that differ in the slashes at their end are one. -/
theorem baseUrl_eq {url : List Char} {n n' : ℕ}
    (hn : ((lastOf asBaseUrl settings).getD defaultBaseUrl).toList = url ++ List.replicate n '/')
    (hn' : ((lastOf asBaseUrl settings').getD defaultBaseUrl).toList =
      url ++ List.replicate n' '/') : inner.baseUrl = inner'.baseUrl := by
  have htrim : ∀ {s : List Char} {m : ℕ}, s = url ++ List.replicate m '/' →
      trimEndMatches '/' s = trimEndMatches '/' url := by
    rintro _ m rfl
    obtain ⟨hlast, k, hk⟩ := trimEndMatches_eq_iff.1 (rfl : trimEndMatches '/' url = _)
    refine trimEndMatches_eq_iff.2 ⟨hlast, k + m, ?_⟩
    rw [List.replicate_add, ← List.append_assoc, ← hk]
  rw [← String.toList_inj, ← trimEndMatches_eq_iff.2 ⟨h.baseUrl, h.slashes⟩,
    ← trimEndMatches_eq_iff.2 ⟨h'.baseUrl, h'.slashes⟩, htrim hn, htrim hn']

theorem http_eq (hclient : lastOf asHttpClient settings = lastOf asHttpClient settings')
    (hconnect : lastOf asConnectTimeout settings = lastOf asConnectTimeout settings') :
    inner.http = inner'.http := by
  obtain ⟨http, _, _, _, readTimeout⟩ := inner
  obtain ⟨http', _, _, _, readTimeout'⟩ := inner'
  have hhttp := h.http
  have hhttp' := h'.http
  dsimp only at hhttp hhttp' ⊢
  cases hhttp with
  | injected hc =>
      cases hhttp' with
      | injected hc' => exact Option.some.inj (hc.symm.trans (hclient.trans hc'))
      | managed hc' => exact absurd (hc.symm.trans (hclient.trans hc')) (by simp)
  | managed hc hbuild =>
      cases hhttp' with
      | injected hc' => exact absurd (hc.symm.trans (hclient.trans hc')) (by simp)
      | managed hc' hbuild' =>
          rw [hconnect, hbuild'] at hbuild
          exact (Except.ok.inj hbuild).symm

theorem readTimeout_eq (hclient : lastOf asHttpClient settings = lastOf asHttpClient settings')
    (hread : lastOf asReadTimeout settings = lastOf asReadTimeout settings') :
    inner.readTimeout = inner'.readTimeout := by
  obtain ⟨http, _, _, _, readTimeout⟩ := inner
  obtain ⟨http', _, _, _, readTimeout'⟩ := inner'
  have hhttp := h.http
  have hhttp' := h'.http
  dsimp only at hhttp hhttp' ⊢
  cases hhttp with
  | injected hc =>
      cases hhttp' with
      | injected hc' => rfl
      | managed hc' => exact absurd (hc.symm.trans (hclient.trans hc')) (by simp)
  | managed hc hbuild =>
      cases hhttp' with
      | injected hc' => exact absurd (hc.symm.trans (hclient.trans hc')) (by simp)
      | managed hc' hbuild' => rw [hread]

/-- An injected HTTP client has no timeouts set. -/
theorem http_eq_of_injected {http : H} (hclient : lastOf asHttpClient settings = some http)
    (hclient' : lastOf asHttpClient settings' = some http) :
    inner.http = inner'.http ∧ inner.readTimeout = inner'.readTimeout := by
  have hinjected : ∀ {s : List (Setting H)} {c : H} {t : Option Duration}, HttpFrom lib s c t →
      lastOf asHttpClient s = some http → c = http ∧ t = none := by
    rintro s c t (hc | ⟨hc, -⟩) hs
    · exact ⟨Option.some.inj (hc.symm.trans hs), rfl⟩
    · rw [hc] at hs
      cases hs
  obtain ⟨hhttp, htimeout⟩ := hinjected h.http hclient
  obtain ⟨hhttp', htimeout'⟩ := hinjected h'.http hclient'
  exact ⟨hhttp.trans hhttp'.symm, htimeout.trans htimeout'.symm⟩

theorem retry_eq (hretry : lastOf asRetry settings = lastOf asRetry settings') :
    inner.retry = inner'.retry := by rw [h.retry, h'.retry, hretry]

end

theorem sameBaseUrl {lib : HttpLibrary H} {settings settings' : List (Setting H)}
    {key key' : String} {inner inner' : Inner H} (h : Configured lib settings key inner)
    (h' : Configured lib settings' key' inner')
    (hbase : lastOf asBaseUrl settings = lastOf asBaseUrl settings') :
    inner.baseUrl = inner'.baseUrl := by
  have hurl : ((lastOf asBaseUrl settings').getD defaultBaseUrl).toList =
      ((lastOf asBaseUrl settings').getD defaultBaseUrl).toList ++ List.replicate 0 '/' := by
    rw [List.replicate_zero, List.append_nil]
  exact baseUrl_eq h h' (by rwa [hbase]) hurl

section

variable {inner inner' : Inner H} (platform : Platform) (wire : Wire H) (deps : Dependencies)

/-- Without authentication a request does not show the key. -/
theorem request_none_eq (hbase : inner.baseUrl = inner'.baseUrl) (path : String)
    (body : List UInt8) (accept : String) (t : Option Duration) :
    inner.request platform path body mimeJson accept .none t =
      inner'.request platform path body mimeJson accept .none t := by
  rw [Inner.request, Inner.request, hbase]
  rfl

theorem jsonNetwork_none_eq (hbase : inner.baseUrl = inner'.baseUrl)
    (hhttp : inner.http = inner'.http) (htimeout : inner.readTimeout = inner'.readTimeout)
    (path : String) : inner.jsonNetwork platform wire path .none =
      inner'.jsonNetwork platform wire path .none := by
  unfold Inner.jsonNetwork
  simp only [request_none_eq platform hbase, hhttp, htimeout]

theorem streamNetwork_eq (hbase : inner.baseUrl = inner'.baseUrl)
    (hauth : inner.authHeader = inner'.authHeader) (hhttp : inner.http = inner'.http) :
    inner.streamNetwork platform wire = inner'.streamNetwork platform wire := by
  unfold Inner.streamNetwork Inner.request
  simp only [hbase, hauth, hhttp]

theorem lint_eq (hretry : inner.retry = inner'.retry) (hbase : inner.baseUrl = inner'.baseUrl)
    (hhttp : inner.http = inner'.http) (htimeout : inner.readTimeout = inner'.readTimeout) :
    inner.lint platform wire deps = inner'.lint platform wire deps := by
  funext req rounds
  rw [Inner.lint, Inner.lint, hretry,
    jsonNetwork_none_eq platform wire hbase hhttp htimeout]

theorem health_eq (hbase : inner.baseUrl = inner'.baseUrl) (hhttp : inner.http = inner'.http)
    (htimeout : inner.readTimeout = inner'.readTimeout) :
    inner.health platform wire deps = inner'.health platform wire deps := by
  rw [Inner.health, Inner.health, jsonNetwork_none_eq platform wire hbase hhttp htimeout]

theorem subscribe_eq (hretry : inner.retry = inner'.retry)
    (hbase : inner.baseUrl = inner'.baseUrl) (hauth : inner.authHeader = inner'.authHeader)
    (hhttp : inner.http = inner'.http) :
    inner.subscribe platform wire deps = inner'.subscribe platform wire deps := by
  funext req rounds
  rw [Inner.subscribe, Inner.subscribe, hretry, streamNetwork_eq platform wire hbase hauth hhttp]

end

/-- The key reaches neither `lint` nor `health`, the retry policy does not reach `health`, and the
read timeout does not reach `subscribe`: on any wire the calls of two clients that differ in nothing
else are the same. With an injected HTTP client no timeout makes a difference, and slashes at the
end of the base URL never do. -/
theorem settings_reach {lib : HttpLibrary H} {settings settings' : List (Setting H)}
    {inner inner' : Inner H} (h : (ClientBuilder.configure settings).build lib = .ok inner)
    (h' : (ClientBuilder.configure settings').build lib = .ok inner') (platform : Platform)
    (wire : Wire H) (deps : Dependencies) :
    (SameBut .apiKey settings settings' →
      inner.lint platform wire deps = inner'.lint platform wire deps ∧
        inner.health platform wire deps = inner'.health platform wire deps) ∧
    (SameBut .retry settings settings' →
      inner.health platform wire deps = inner'.health platform wire deps) ∧
    (SameBut .readTimeout settings settings' →
      inner.subscribe platform wire deps = inner'.subscribe platform wire deps) ∧
    (SameBut .readTimeout settings settings' ∨ SameBut .connectTimeout settings settings' →
      lastOf asHttpClient settings ≠ none → inner = inner') ∧
    (SameBut .baseUrl settings settings' → ∀ (url : List Char) (n n' : ℕ),
      ((lastOf asBaseUrl settings).getD defaultBaseUrl).toList = url ++ List.replicate n '/' →
      ((lastOf asBaseUrl settings').getD defaultBaseUrl).toList = url ++ List.replicate n' '/' →
        inner = inner') := by
  obtain ⟨key, hkey, hconf⟩ := build_eq_ok_iff.1 h
  obtain ⟨key', hkey', hconf'⟩ := build_eq_ok_iff.1 h'
  have hauth : lastOf asApiKey settings = lastOf asApiKey settings' →
      inner.authHeader = inner'.authHeader := by
    intro hlast
    rw [hkey.last, hkey'.last, Option.some.injEq] at hlast
    rw [hconf.authHeader, hconf'.authHeader, hlast]
  have hext : inner.http = inner'.http → inner.baseUrl = inner'.baseUrl →
      inner.authHeader = inner'.authHeader → inner.retry = inner'.retry →
      inner.readTimeout = inner'.readTimeout → inner = inner' := by
    obtain ⟨_, _, _, _, _⟩ := inner
    obtain ⟨_, _, _, _, _⟩ := inner'
    rintro ⟨⟩ ⟨⟩ ⟨⟩ ⟨⟩ ⟨⟩
    rfl
  refine ⟨?_, ?_, ?_, ?_, ?_⟩
  · intro hsame
    have hbase := sameBaseUrl hconf hconf' (hsame.baseUrl (by decide))
    have hhttp := http_eq hconf hconf' (hsame.httpClient (by decide))
      (hsame.connectTimeout (by decide))
    have htimeout := readTimeout_eq hconf hconf' (hsame.httpClient (by decide))
      (hsame.readTimeout (by decide))
    have hretry := retry_eq hconf hconf' (hsame.retry (by decide))
    exact ⟨lint_eq platform wire deps hretry hbase hhttp htimeout,
      health_eq platform wire deps hbase hhttp htimeout⟩
  · intro hsame
    exact health_eq platform wire deps (sameBaseUrl hconf hconf' (hsame.baseUrl (by decide)))
      (http_eq hconf hconf' (hsame.httpClient (by decide)) (hsame.connectTimeout (by decide)))
      (readTimeout_eq hconf hconf' (hsame.httpClient (by decide)) (hsame.readTimeout (by decide)))
  · intro hsame
    exact subscribe_eq platform wire deps (retry_eq hconf hconf' (hsame.retry (by decide)))
      (sameBaseUrl hconf hconf' (hsame.baseUrl (by decide))) (hauth (hsame.apiKey (by decide)))
      (http_eq hconf hconf' (hsame.httpClient (by decide)) (hsame.connectTimeout (by decide)))
  · intro hsame hinjected
    obtain ⟨http, hclient⟩ := Option.ne_none_iff_exists'.1 hinjected
    have hclient' : lastOf asHttpClient settings' = some http := by
      obtain hsame | hsame := hsame
      · exact (hsame.httpClient (by decide)).symm.trans hclient
      · exact (hsame.httpClient (by decide)).symm.trans hclient
    obtain ⟨hhttp, htimeout⟩ := http_eq_of_injected hconf hconf' hclient hclient'
    obtain hsame | hsame := hsame
    · exact hext hhttp (sameBaseUrl hconf hconf' (hsame.baseUrl (by decide)))
        (hauth (hsame.apiKey (by decide))) (retry_eq hconf hconf' (hsame.retry (by decide))) htimeout
    · exact hext hhttp (sameBaseUrl hconf hconf' (hsame.baseUrl (by decide)))
        (hauth (hsame.apiKey (by decide))) (retry_eq hconf hconf' (hsame.retry (by decide))) htimeout
  · intro hsame url n n' hn hn'
    exact hext
      (http_eq hconf hconf' (hsame.httpClient (by decide)) (hsame.connectTimeout (by decide)))
      (baseUrl_eq hconf hconf' hn hn') (hauth (hsame.apiKey (by decide)))
      (retry_eq hconf hconf' (hsame.retry (by decide)))
      (readTimeout_eq hconf hconf' (hsame.httpClient (by decide)) (hsame.readTimeout (by decide)))

def sampleLibrary : HttpLibrary Unit where
  validHeader s := s.toList.all fun c => 0x20 ≤ c.toNat && c.toNat < 0x7F
  build _ := .ok ()

def samplePlatform : Platform := ⟨"linux", "x86_64"⟩

def refusingWire : Wire Unit := fun _ req _ =>
  ⟨if req.authorization = some ⟨bearer "a", true⟩ then some (.error ⟨"refused"⟩) else none, 0⟩

theorem settings_reach_keys : ∃ inner inner',
    (ClientBuilder.configure [.apiKey "a"]).build sampleLibrary = .ok inner ∧
      (ClientBuilder.configure [.apiKey "", .apiKey "b"]).build sampleLibrary = .ok inner' ∧
      inner.lint samplePlatform refusingWire .sample =
        inner'.lint samplePlatform refusingWire .sample := by
  have h : (ClientBuilder.configure [.apiKey "a"]).build sampleLibrary = .ok
      ⟨(), defaultBaseUrl, ⟨bearer "a", true⟩, (TransientRetry.new 5).shouldRetry,
        some defaultReadTimeout⟩ := by rfl
  have h' : (ClientBuilder.configure [.apiKey "", .apiKey "b"]).build sampleLibrary = .ok
      ⟨(), defaultBaseUrl, ⟨bearer "b", true⟩, (TransientRetry.new 5).shouldRetry,
        some defaultReadTimeout⟩ := by rfl
  have hsame : SameBut .apiKey [Setting.apiKey (H := Unit) "a"] [.apiKey "", .apiKey "b"] :=
    ⟨fun hne => absurd rfl hne, fun _ => rfl, fun _ => rfl, fun _ => rfl, fun _ => rfl,
      fun _ => rfl⟩
  exact ⟨_, _, h, h', ((settings_reach h h' samplePlatform refusingWire .sample).1 hsame).1⟩

end Semantik
