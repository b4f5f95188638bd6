import Mathlib.Data.List.DropRight
import Semantik.Retry
import Semantik.RustParse

/-!
# Building a client

A client is configured by setters, in any order and number, or from the environment. The build checks
the key, drops the slashes at the end of the base URL, and leaves the timeouts of an injected HTTP
client alone.
-/

namespace Semantik

def defaultBaseUrl : String := "https://semantik.noetive.io"

def envApiKey : String := "NOETIVE_KEY_SECRET"

def envBaseUrl : String := "NOETIVE_BASE_URL"

def defaultConnectTimeout : Duration := .fromSecs 10

def defaultReadTimeout : Duration := .fromSecs 30

/-- What the HTTP library decides: which texts can be a header value, and the clients that can be
built with a connect timeout. -/
structure HttpLibrary (H : Type) where
  validHeader : String → Bool
  build : Duration → Except ReqwestError H

/-- A header value, and whether it is kept out of debug output. -/
structure AuthHeader where
  text : String
  sensitive : Bool
deriving DecidableEq, Repr

structure Inner (H : Type) where
  http : H
  baseUrl : String
  authHeader : AuthHeader
  retry : RetryPolicy
  readTimeout : Option Duration

structure ClientBuilder (H : Type) where
  apiKey : Option String := none
  baseUrl : Option String := none
  httpClient : Option H := none
  retry : Option RetryPolicy := none
  connectTimeout : Option Duration := none
  readTimeout : Option Duration := none

def trimEndMatches (c : Char) (s : List Char) : List Char := s.rdropWhile (· = c)

def apiKeyNonEmpty (k : String) : Bool := trim k.toList ≠ []

def bearer (apiKey : String) : String := s!"Bearer {apiKey}"

inductive Setting (H : Type) where
  | apiKey (key : String)
  | baseUrl (url : String)
  | httpClient (http : H)
  | retry (policy : RetryPolicy)
  | connectTimeout (t : Duration)
  | readTimeout (t : Duration)

variable {H : Type} (lib : HttpLibrary H)

namespace ClientBuilder

def set (b : ClientBuilder H) : Setting H → ClientBuilder H
  | .apiKey key => { b with apiKey := some key }
  | .baseUrl url => { b with baseUrl := some url }
  | .httpClient http => { b with httpClient := some http }
  | .retry policy => { b with retry := some policy }
  | .connectTimeout t => { b with connectTimeout := some t }
  | .readTimeout t => { b with readTimeout := some t }

def httpAndTimeout (b : ClientBuilder H) : Except Error (H × Option Duration) :=
  match b.httpClient with
  | some http => .ok (http, none)
  | none =>
    match lib.build (b.connectTimeout.getD defaultConnectTimeout) with
    | .error e => .error (.transport e)
    | .ok http => .ok (http, some (b.readTimeout.getD defaultReadTimeout))

def build (b : ClientBuilder H) : Except Error (Inner H) :=
  match b.apiKey with
  | none => .error .invalidApiKey
  | some apiKey =>
    if ¬ apiKeyNonEmpty apiKey then .error .invalidApiKey
    else if ¬ lib.validHeader (bearer apiKey) then .error .invalidApiKey
    else
      match b.httpAndTimeout lib with
      | .error e => .error e
      | .ok (http, readTimeout) =>
        .ok
          { http
            baseUrl := .ofList (trimEndMatches '/' (b.baseUrl.getD defaultBaseUrl).toList)
            authHeader := ⟨bearer apiKey, true⟩
            retry := b.retry.getD (TransientRetry.new 5).shouldRetry
            readTimeout }

def configure (settings : List (Setting H)) : ClientBuilder H := settings.foldl set {}

end ClientBuilder

namespace Inner

def new (apiKey : String) : Except Error (Inner H) :=
  (ClientBuilder.configure [.apiKey apiKey]).build lib

/-- The client of the environment, whose variables are absent if they are unset or not text. -/
def fromEnv (env : String → Option String) : Except Error (Inner H) :=
  match (env envApiKey).filter (· ≠ "") with
  | none => .error .missingApiKey
  | some key =>
    let b : ClientBuilder H := ClientBuilder.set {} (.apiKey key)
    let b :=
      match env envBaseUrl with
      | some base => if base ≠ "" then b.set (.baseUrl base) else b
      | none => b
    b.build lib

end Inner

theorem trim_eq_nil_iff {cs : List Char} : trim cs = [] ↔ ∀ c ∈ cs, isWhitespace c = true := by
  constructor
  · intro htrim
    obtain ⟨before, after, hcs, hbefore, hafter⟩ := exists_trim cs
    rw [htrim, List.append_nil] at hcs
    rw [hcs]
    exact List.forall_mem_append.2 ⟨hbefore, hafter⟩
  · intro h
    rw [trim, List.dropWhile_eq_nil_iff.2 h]
    rfl

theorem apiKeyNonEmpty_iff {k : String} :
    apiKeyNonEmpty k = true ↔ ∃ c ∈ k.toList, isWhitespace c = false := by
  rw [apiKeyNonEmpty, decide_eq_true_iff, Ne, trim_eq_nil_iff]
  simp

/-- What is left is the text without the characters at its end. -/
theorem trimEndMatches_eq_iff {c : Char} {s t : List Char} : trimEndMatches c s = t ↔
    t.getLast? ≠ some c ∧ ∃ n, s = t ++ List.replicate n c := by
  constructor
  · rintro rfl
    refine ⟨?_, (s.rtakeWhile (· = c)).length, ?_⟩
    · intro hlast
      have hne : trimEndMatches c s ≠ [] := by
        rintro hnil
        rw [hnil] at hlast
        cases hlast
      rw [List.getLast?_eq_some_getLast hne, Option.some.injEq] at hlast
      exact List.rdropWhile_last_not _ _ hne (decide_eq_true hlast)
    · have hall : s.rtakeWhile (· = c) = List.replicate (s.rtakeWhile (· = c)).length c :=
        List.eq_replicate_of_mem fun x hx => by simpa using List.mem_rtakeWhile_imp hx
      rw [← hall]
      exact List.rdropWhile_append_rtakeWhile.symm
  · rintro ⟨hlast, n, rfl⟩
    induction n with
    | zero =>
        rw [List.replicate_zero, List.append_nil, trimEndMatches, List.rdropWhile_eq_self_iff]
        intro hne heq
        exact hlast (List.getLast?_eq_some_getLast hne ▸ congrArg some (of_decide_eq_true heq))
    | succ n ih =>
        rw [List.replicate_succ', ← List.append_assoc, trimEndMatches, List.rdropWhile_concat,
          if_pos (decide_eq_true rfl)]
        exact ih

namespace Setting

def asApiKey : Setting H → Option String
  | apiKey key => some key
  | _ => none

def asBaseUrl : Setting H → Option String
  | baseUrl url => some url
  | _ => none

def asHttpClient : Setting H → Option H
  | httpClient http => some http
  | _ => none

def asRetry : Setting H → Option RetryPolicy
  | retry policy => some policy
  | _ => none

def asConnectTimeout : Setting H → Option Duration
  | connectTimeout t => some t
  | _ => none

def asReadTimeout : Setting H → Option Duration
  | readTimeout t => some t
  | _ => none

end Setting

def lastOf {β : Type*} (kind : Setting H → Option β) (settings : List (Setting H)) : Option β :=
  (settings.filterMap kind).getLast?

theorem lastOf_append {β : Type*} (kind : Setting H → Option β) (settings : List (Setting H))
    (s : Setting H) : lastOf kind (settings ++ [s]) = (kind s).or (lastOf kind settings) := by
  rw [lastOf, lastOf, List.filterMap_append, List.getLast?_append]
  cases hs : kind s <;> simp [hs]

open Setting

theorem configure_eq (settings : List (Setting H)) : ClientBuilder.configure settings =
    ⟨lastOf asApiKey settings, lastOf asBaseUrl settings, lastOf asHttpClient settings,
      lastOf asRetry settings, lastOf asConnectTimeout settings, lastOf asReadTimeout settings⟩ := by
  induction settings using List.reverseRecOn with
  | nil => rfl
  | append_singleton settings s ih =>
      simp only [lastOf_append]
      rw [ClientBuilder.configure, List.foldl_append, ← ClientBuilder.configure, ih]
      cases s <;> rfl

structure UsableKey (settings : List (Setting H)) (key : String) : Prop where
  last : lastOf asApiKey settings = some key
  nonBlank : ∃ c ∈ key.toList, isWhitespace c = false
  valid : lib.validHeader (bearer key) = true

/-- Where the HTTP client comes from, and the read timeout that goes with it. -/
inductive HttpFrom (settings : List (Setting H)) : H → Option Duration → Prop where
  | injected {http : H} (h : lastOf asHttpClient settings = some http) :
      HttpFrom settings http none
  | managed {http : H} (h : lastOf asHttpClient settings = none)
      (hbuild : lib.build ((lastOf asConnectTimeout settings).getD defaultConnectTimeout) =
        .ok http) :
      HttpFrom settings http (some ((lastOf asReadTimeout settings).getD defaultReadTimeout))

/-- The client that these setter calls ask for. -/
structure Configured (settings : List (Setting H)) (key : String) (inner : Inner H) : Prop where
  authHeader : inner.authHeader = ⟨bearer key, true⟩
  baseUrl : inner.baseUrl.toList.getLast? ≠ some '/'
  slashes : ∃ n, ((lastOf asBaseUrl settings).getD defaultBaseUrl).toList =
    inner.baseUrl.toList ++ List.replicate n '/'
  retry : inner.retry = (lastOf asRetry settings).getD (TransientRetry.new 5).shouldRetry
  http : HttpFrom lib settings inner.http inner.readTimeout

theorem httpAndTimeout_eq_ok_iff {settings : List (Setting H)} {http : H} {t : Option Duration} :
    (ClientBuilder.configure settings).httpAndTimeout lib = .ok (http, t) ↔
      HttpFrom lib settings http t := by
  rw [configure_eq, ClientBuilder.httpAndTimeout]
  dsimp only
  constructor
  · intro h
    cases hclient : lastOf asHttpClient settings with
    | some http' =>
        rw [hclient] at h
        cases h
        exact .injected hclient
    | none =>
        rw [hclient] at h
        dsimp only at h
        split at h
        · cases h
        · next hbuild =>
          cases h
          exact .managed hclient hbuild
  · intro h
    cases h with
    | injected h => rw [h]
    | managed h hbuild => rw [h, hbuild]

theorem httpAndTimeout_eq_error_iff {settings : List (Setting H)} {err : Error} :
    (ClientBuilder.configure settings).httpAndTimeout lib = .error err ↔
      lastOf asHttpClient settings = none ∧ ∃ e, err = .transport e ∧
        lib.build ((lastOf asConnectTimeout settings).getD defaultConnectTimeout) = .error e := by
  rw [configure_eq, ClientBuilder.httpAndTimeout]
  dsimp only
  constructor
  · intro h
    cases hclient : lastOf asHttpClient settings with
    | some http =>
        rw [hclient] at h
        cases h
    | none =>
        rw [hclient] at h
        dsimp only at h
        split at h
        · next e hbuild =>
          cases h
          exact ⟨rfl, e, rfl, hbuild⟩
        · cases h
  · rintro ⟨h, e, rfl, hbuild⟩
    rw [h, hbuild]

variable {lib}

theorem build_of_usable {settings : List (Setting H)} {key : String}
    (h : UsableKey lib settings key) : (ClientBuilder.configure settings).build lib =
      ((ClientBuilder.configure settings).httpAndTimeout lib).map fun p =>
        { http := p.1
          baseUrl := .ofList (trimEndMatches '/'
            ((lastOf asBaseUrl settings).getD defaultBaseUrl).toList)
          authHeader := ⟨bearer key, true⟩
          retry := (lastOf asRetry settings).getD (TransientRetry.new 5).shouldRetry
          readTimeout := p.2 } := by
  have hkey : (ClientBuilder.configure settings).apiKey = some key := by
    rw [configure_eq]
    exact h.last
  rw [ClientBuilder.build, hkey]
  dsimp only
  rw [if_neg (not_not.2 (apiKeyNonEmpty_iff.2 h.nonBlank)), if_neg (not_not.2 h.valid)]
  cases (ClientBuilder.configure settings).httpAndTimeout lib with
  | error e => rfl
  | ok p =>
      rw [configure_eq]
      rfl

theorem build_of_not_usable {settings : List (Setting H)}
    (h : ∀ key, ¬ UsableKey lib settings key) :
    (ClientBuilder.configure settings).build lib = .error .invalidApiKey := by
  cases hkey : (ClientBuilder.configure settings).apiKey with
  | none => rw [ClientBuilder.build, hkey]
  | some key =>
      have hlast : lastOf asApiKey settings = some key := by
        rw [← hkey, configure_eq]
      rw [ClientBuilder.build, hkey]
      dsimp only
      by_cases hblank : apiKeyNonEmpty key = true
      · rw [if_neg (not_not.2 hblank), if_pos]
        intro hvalid
        exact h key ⟨hlast, apiKeyNonEmpty_iff.1 hblank, hvalid⟩
      · rw [if_pos hblank]

theorem UsableKey.unique {settings : List (Setting H)} {key key' : String}
    (h : UsableKey lib settings key) (h' : UsableKey lib settings key') : key = key' :=
  Option.some.inj (h.last.symm.trans h'.last)

theorem build_eq_ok_iff {settings : List (Setting H)} {inner : Inner H} :
    (ClientBuilder.configure settings).build lib = .ok inner ↔
      ∃ key, UsableKey lib settings key ∧ Configured lib settings key inner := by
  constructor
  · intro h
    by_cases husable : ∃ key, UsableKey lib settings key
    · obtain ⟨key, hkey⟩ := husable
      rw [build_of_usable hkey] at h
      cases hhttp : (ClientBuilder.configure settings).httpAndTimeout lib with
      | error e =>
          rw [hhttp] at h
          cases h
      | ok p =>
          rw [hhttp] at h
          cases h
          obtain ⟨hlast, n, hn⟩ := trimEndMatches_eq_iff.1 (rfl : trimEndMatches '/'
            ((lastOf asBaseUrl settings).getD defaultBaseUrl).toList = _)
          refine ⟨key, hkey, rfl, ?_, ⟨n, ?_⟩, rfl, (httpAndTimeout_eq_ok_iff lib).1 hhttp⟩
          · rwa [String.toList_ofList]
          · rwa [String.toList_ofList]
    · rw [build_of_not_usable (not_exists.1 husable)] at h
      cases h
  · rintro ⟨key, hkey, hconfigured⟩
    obtain ⟨http, baseUrl, authHeader, retry, readTimeout⟩ := inner
    obtain ⟨rfl, hlast, hslashes, rfl, hhttp⟩ := hconfigured
    rw [build_of_usable hkey, (httpAndTimeout_eq_ok_iff lib).2 hhttp,
      trimEndMatches_eq_iff.2 ⟨hlast, hslashes⟩]
    dsimp only
    rw [Except.map, String.ofList_toList]

theorem build_eq_error_iff {settings : List (Setting H)} {err : Error} :
    (ClientBuilder.configure settings).build lib = .error err ↔
      (err = .invalidApiKey ∧ ∀ key, ¬ UsableKey lib settings key) ∨
      (∃ key, UsableKey lib settings key) ∧ lastOf asHttpClient settings = none ∧
        ∃ e, err = .transport e ∧
          lib.build ((lastOf asConnectTimeout settings).getD defaultConnectTimeout) = .error e := by
  by_cases husable : ∃ key, UsableKey lib settings key
  · obtain ⟨key, hkey⟩ := husable
    rw [build_of_usable hkey, ← httpAndTimeout_eq_error_iff lib]
    constructor
    · intro h
      cases hhttp : (ClientBuilder.configure settings).httpAndTimeout lib with
      | ok p =>
          rw [hhttp] at h
          cases h
      | error e =>
          rw [hhttp] at h
          cases h
          exact .inr ⟨⟨key, hkey⟩, rfl⟩
    · rintro (⟨-, hnot⟩ | ⟨-, h⟩)
      · exact absurd hkey (hnot key)
      · rw [h]
        rfl
  · have hnot := not_exists.1 husable
    rw [build_of_not_usable hnot]
    constructor
    · intro h
      cases h
      exact .inl ⟨rfl, hnot⟩
    · rintro (⟨rfl, -⟩ | ⟨husable', -⟩)
      · rfl
      · exact absurd husable' husable

def envSettings (key : String) (env : String → Option String) : List (Setting H) :=
  .apiKey key :: ((env envBaseUrl).filter (· ≠ "")).toList.map .baseUrl

theorem fromEnv_eq {env : String → Option String} {key : String}
    (h : env envApiKey = some key) (hne : key ≠ "") :
    Inner.fromEnv lib env = (ClientBuilder.configure (envSettings key env)).build lib := by
  rw [Inner.fromEnv, h, Option.filter_some, if_pos (by simpa using hne), envSettings]
  dsimp only
  cases hbase : env envBaseUrl with
  | none => rfl
  | some base =>
      by_cases hempty : base = ""
      · rw [Option.filter_some, if_neg (by simpa using hempty)]
        simp [hempty, ClientBuilder.configure]
      · rw [Option.filter_some, if_pos (by simpa using hempty)]
        simp [hempty, ClientBuilder.configure]

/-- However the setters are called, the last call of each kind counts and no other: with a usable
key the build yields the client they ask for, unless the HTTP library fails to build one, and
without a usable key it says so. From the environment a missing key is told from a blank one. -/
theorem build_law (lib : HttpLibrary H) (settings : List (Setting H)) :
    (∀ inner, (ClientBuilder.configure settings).build lib = .ok inner ↔
      ∃ key, UsableKey lib settings key ∧ Configured lib settings key inner) ∧
    (∀ err, (ClientBuilder.configure settings).build lib = .error err ↔
      (err = .invalidApiKey ∧ ∀ key, ¬ UsableKey lib settings key) ∨
      (∃ key, UsableKey lib settings key) ∧ lastOf asHttpClient settings = none ∧
        ∃ e, err = .transport e ∧
          lib.build ((lastOf asConnectTimeout settings).getD defaultConnectTimeout) = .error e) ∧
    ∀ env, (Inner.fromEnv lib env = .error .missingApiKey ↔
        env envApiKey = none ∨ env envApiKey = some "") ∧
      ∀ key, env envApiKey = some key → key ≠ "" →
        Inner.fromEnv lib env = (ClientBuilder.configure (envSettings key env)).build lib := by
  refine ⟨fun _ => build_eq_ok_iff, fun _ => build_eq_error_iff, fun env => ⟨?_, ?_⟩⟩
  · cases hkey : env envApiKey with
    | none => simp [Inner.fromEnv, hkey]
    | some key =>
        by_cases hempty : key = ""
        · simp [Inner.fromEnv, hkey, hempty, Option.filter_some]
        · rw [fromEnv_eq hkey hempty]
          apply iff_of_false
          · rw [build_eq_error_iff]
            rintro (⟨⟨⟩, -⟩ | ⟨-, -, e, ⟨⟩, -⟩)
          · simpa using hempty
  · exact fun key hkey hne => fromEnv_eq hkey hne

end Semantik
