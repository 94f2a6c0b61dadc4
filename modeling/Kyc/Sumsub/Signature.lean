import Kyc.Encoding.Utf8
import Kyc.Http.Handlers
import Kyc.Json.RoundTrip

/-! # Signed webhooks

The hexadecimal digest over a webhook's exact body, under an algorithm that the request may
choose from three. The comparison is one of bytes; it accepts the digest itself and no other
text, and without an accepted digest the webhook handler does nothing.
-/

namespace Kyc.Sumsub

open Json Encoding Http

/-- The rows of `DIGEST_ALGORITHMS`. -/
inductive DigestAlgorithm
  | sha1
  | sha256
  | sha512
  deriving DecidableEq, Repr

def DigestAlgorithm.headerName : DigestAlgorithm → String
  | sha1 => "HMAC_SHA1_HEX"
  | sha256 => "HMAC_SHA256_HEX"
  | sha512 => "HMAC_SHA512_HEX"

def DigestAlgorithm.size : DigestAlgorithm → ℕ
  | sha1 => 20
  | sha256 => 32
  | sha512 => 64

def digestAlgorithms : List DigestAlgorithm := [.sha1, .sha256, .sha512]

def defaultDigestAlgorithm : Text := lit DigestAlgorithm.sha256.headerName

/-- The own property of `DIGEST_ALGORITHMS` under a name. -/
def digestAlgorithm? (name : Text) : Option DigestAlgorithm :=
  digestAlgorithms.find? fun algorithm => lit algorithm.headerName = name

structure Hmac where
  digest : DigestAlgorithm → List UInt8 → List UInt8 → List UInt8
  length_digest : ∀ algorithm key message,
    (digest algorithm key message).length = algorithm.size

variable (H : Hmac)

def hmacHex (algorithm : DigestAlgorithm) (secret body : Text) : Text :=
  hex (H.digest algorithm (utf8 secret) (utf8 body))

def timingSafeEqualString (a b : Text) : Bool :=
  let left := utf8 a
  let right := utf8 b
  if left.length ≠ right.length then false else left = right

/-- The units that `trim` removes. -/
def isTrimmedUnit (c : UInt16) : Bool :=
  c ∈ [9, 10, 11, 12, 13, 32, 0xa0, 0x1680, 0x2028, 0x2029, 0x202f, 0x205f, 0x3000, 0xfeff] ∨
    (0x2000 ≤ c ∧ c ≤ 0x200a)

/-- Verify a digest of the raw body; without a secret nothing is accepted unless allowed. -/
def verifyHexDigest (signature algorithm : Option Text) (body : Text) (secret : Option Text)
    (allowMissingSecret : Bool) : Bool :=
  match secret.filter (· ≠ []) with
  | none => allowMissingSecret
  | some secret =>
    match digestAlgorithm? (algorithm.getD defaultDigestAlgorithm) with
    | none => false
    | some hash =>
      match signature.filter fun s => ¬ s.all isTrimmedUnit with
      | none => false
      | some signature => timingSafeEqualString signature (hmacHex H hash secret body)

def digestHeader : String := "x-payload-digest"

def digestAlgHeader : String := "x-payload-digest-alg"

def headerValue (headers : WebhookHeaders) (name : String) : Option Text :=
  match headers name with
  | none => none
  | some (.single s) => some s
  | some (.many values) => some (stringify decimal (.array (values.map .string)))

def verifyWebhook (webhookSecret : Option Text) (allowMissingSecret : Bool)
    (headers : WebhookHeaders) (rawBody : Text) : Bool :=
  verifyHexDigest H (headerValue headers digestHeader) (headerValue headers digestAlgHeader)
    rawBody webhookSecret allowMissingSecret

section Exactly

variable {H}

theorem digestAlgorithm?_headerName (algorithm : DigestAlgorithm) :
    digestAlgorithm? (lit algorithm.headerName) = some algorithm := by
  cases algorithm <;> decide

theorem digestAlgorithm?_eq_some_iff {name : Text} {algorithm : DigestAlgorithm} :
    digestAlgorithm? name = some algorithm ↔ name = lit algorithm.headerName := by
  constructor
  · rintro h
    simpa [eq_comm] using List.find?_some h
  · rintro rfl
    exact digestAlgorithm?_headerName algorithm

theorem timingSafeEqualString_iff {a b : Text} (hb : Ascii b) :
    timingSafeEqualString a b ↔ a = b := by
  constructor
  · rintro h
    simp only [timingSafeEqualString] at h
    split_ifs at h
    exact eq_of_utf8_eq hb (by simpa using h)
  · rintro rfl
    simp [timingSafeEqualString]

theorem exists_cons_hmacHex (algorithm : DigestAlgorithm) (secret body : Text) :
    ∃ n s, hmacHex H algorithm secret body = hexDigit n :: s ∧ n < 16 := by
  have size : 0 < algorithm.size := by cases algorithm <;> decide
  cases hd : H.digest algorithm (utf8 secret) (utf8 body) with
  | nil =>
    have length := H.length_digest algorithm (utf8 secret) (utf8 body)
    rw [hd, List.length_nil] at length
    omega
  | cons b bytes =>
    have := b.toNat_lt
    refine ⟨b.toNat / 16, hexDigit (b.toNat % 16) :: hex bytes, ?_, by omega⟩
    rw [hmacHex, hd]
    rfl

theorem hexDigit_stands {n : ℕ} (hn : n < 16) :
    isTrimmedUnit (hexDigit n) = false ∧ hexDigit n ≠ unit '[' := by
  have all : ∀ m < 16, isTrimmedUnit (hexDigit m) = false ∧ hexDigit m ≠ unit '[' := by decide
  exact all n hn

theorem headerValue_eq_some_iff {headers : WebhookHeaders} {name : String} {c : UInt16} {s : Text}
    (hc : c ≠ unit '[') :
    headerValue headers name = some (c :: s) ↔ headers name = some (.single (c :: s)) := by
  unfold headerValue
  cases headers name with
  | none => simp
  | some value =>
    cases value with
    | single t => simp
    | many values => simp [stringify, hc.symm]

theorem headerValue_eq_none_iff {headers : WebhookHeaders} {name : String} :
    headerValue headers name = none ↔ headers name = none := by
  unfold headerValue
  split <;> simp_all

/-- With a secret, exactly its digest of the body under the chosen algorithm is accepted. -/
theorem verifyHexDigest_iff {signature algorithm : Option Text} {body secret : Text} {allow : Bool}
    (hsecret : secret ≠ []) :
    verifyHexDigest H signature algorithm body (some secret) allow ↔
      ∃ hash, algorithm.getD defaultDigestAlgorithm = lit hash.headerName ∧
        signature = some (hmacHex H hash secret body) := by
  have set : (some secret).filter (· ≠ []) = some secret := by simp [hsecret]
  simp only [verifyHexDigest, set]
  constructor
  · rintro h
    split at h
    · cases h
    · rename_i hash hhash
      split at h
      · cases h
      · rename_i s hs
        refine ⟨hash, digestAlgorithm?_eq_some_iff.mp hhash, ?_⟩
        have same : s = hmacHex H hash secret body :=
          (timingSafeEqualString_iff (ascii_hex _)).mp h
        exact same ▸ (Option.filter_eq_some_iff.mp hs).1
  · rintro ⟨hash, halgorithm, rfl⟩
    obtain ⟨n, s, start, hn⟩ := exists_cons_hmacHex (H := H) hash secret body
    have present : (some (hmacHex H hash secret body)).filter (fun s => ¬ s.all isTrimmedUnit)
        = some (hmacHex H hash secret body) := by
      rw [Option.filter_eq_some_iff]
      simp [start, (hexDigit_stands hn).1]
    rw [digestAlgorithm?_eq_some_iff.mpr halgorithm]
    dsimp only
    rw [present]
    exact (timingSafeEqualString_iff (ascii_hex _)).mpr rfl

/-- The headers of a request that names the algorithm, or leaves it to the default. -/
def ChoosesAlgorithm (headers : WebhookHeaders) (hash : DigestAlgorithm) : Prop :=
  (headers digestAlgHeader = none ∧ hash = .sha256) ∨
    headers digestAlgHeader = some (.single (lit hash.headerName))

theorem choosesAlgorithm_iff {headers : WebhookHeaders} {hash : DigestAlgorithm} :
    (headerValue headers digestAlgHeader).getD defaultDigestAlgorithm = lit hash.headerName ↔
      ChoosesAlgorithm headers hash := by
  have named : ∃ s, lit hash.headerName = unit 'H' :: s := by
    cases hash <;> exact ⟨_, rfl⟩
  obtain ⟨s, hs⟩ := named
  unfold ChoosesAlgorithm
  cases hv : headerValue headers digestAlgHeader with
  | none =>
    rw [headerValue_eq_none_iff.mp hv]
    cases hash <;> simp [defaultDigestAlgorithm] <;> decide
  | some value =>
    have present : headers digestAlgHeader ≠ none := fun h => by
      rw [headerValue_eq_none_iff.mpr h] at hv
      cases hv
    rw [Option.getD_some, hs, ← headerValue_eq_some_iff (by decide), hv]
    simp [present]

/-- Exactly the correctly signed webhooks verify. -/
theorem verifyWebhook_iff {webhookSecret : Option Text} {allowMissingSecret : Bool}
    {headers : WebhookHeaders} {rawBody : Text} :
    verifyWebhook H webhookSecret allowMissingSecret headers rawBody ↔
      ((webhookSecret = none ∨ webhookSecret = some []) ∧ allowMissingSecret) ∨
      ∃ secret hash, webhookSecret = some secret ∧ secret ≠ [] ∧ ChoosesAlgorithm headers hash ∧
        headers digestHeader = some (.single (hmacHex H hash secret rawBody)) := by
  have missing (h : webhookSecret = none ∨ webhookSecret = some []) :
      webhookSecret.filter (· ≠ []) = none := by
    rcases h with rfl | rfl <;> rfl
  by_cases hunset : webhookSecret = none ∨ webhookSecret = some []
  · have accepted : verifyWebhook H webhookSecret allowMissingSecret headers rawBody
        = allowMissingSecret := by
      rw [verifyWebhook, verifyHexDigest, missing hunset]
    rw [accepted]
    constructor
    · exact fun h => Or.inl ⟨hunset, h⟩
    · rintro (⟨-, h⟩ | ⟨secret, -, rfl, hne, -⟩)
      · exact h
      · simp [hne] at hunset
  · obtain ⟨secret, rfl⟩ : ∃ s, webhookSecret = some s :=
      Option.ne_none_iff_exists'.mp fun h => hunset (Or.inl h)
    have hne : secret ≠ [] := fun h => hunset (Or.inr (congrArg some h))
    rw [verifyWebhook, verifyHexDigest_iff hne]
    constructor
    · rintro ⟨hash, halgorithm, hsignature⟩
      refine Or.inr ⟨secret, hash, rfl, hne, choosesAlgorithm_iff.mp halgorithm, ?_⟩
      obtain ⟨n, s, start, hn⟩ := exists_cons_hmacHex (H := H) hash secret rawBody
      rw [start] at hsignature ⊢
      exact (headerValue_eq_some_iff (hexDigit_stands hn).2).mp hsignature
    · rintro (⟨h, -⟩ | ⟨secret', hash, heq, -, halgorithm, hsignature⟩)
      · exact absurd h hunset
      · obtain rfl := Option.some.inj heq
        refine ⟨hash, choosesAlgorithm_iff.mpr halgorithm, ?_⟩
        rw [headerValue, hsignature]

end Exactly

section Handler

variable {σ α : Type}

theorem run_processWebhookHttp_of_unverified (h : Handler (WebhookSig α) Thrown σ)
    {headers : WebhookHeaders} {rawBody : Text} {ip : Option String} {s : σ}
    (hverify : (h (.verifyWebhook headers rawBody ip) s).1 ≠ .ok true) :
    (processWebhookHttp α headers rawBody ip).run h s =
      (.ok ⟨.number 401, .error "Unauthorized"⟩, (h (.verifyWebhook headers rawBody ip) s).2) := by
  have performed := Program.run_perform h (WebhookOp.verifyWebhook headers rawBody ip) s
  rcases hr : h (.verifyWebhook headers rawBody ip) s with ⟨result, s'⟩
  rw [hr] at performed hverify
  simp only [processWebhookHttp, Program.run_bind, Program.run_tryCatch, performed]
  cases result with
  | error e => rfl
  | ok verified =>
    cases verified with
    | false => rfl
    | true => exact absurd rfl hverify

/-- Only correctly signed webhooks act: exactly those verify, and one that does not, or whose
verifier throws, is answered 401 by a handler that neither parses it nor calls the service. -/
theorem only_signed_webhooks_act (H : Hmac) :
    (∀ webhookSecret allowMissingSecret headers rawBody,
      verifyWebhook H webhookSecret allowMissingSecret headers rawBody ↔
        ((webhookSecret = none ∨ webhookSecret = some []) ∧ allowMissingSecret) ∨
        ∃ secret hash, webhookSecret = some secret ∧ secret ≠ [] ∧
          ChoosesAlgorithm headers hash ∧
          headers digestHeader = some (.single (hmacHex H hash secret rawBody))) ∧
    ∀ {σ α : Type} (h : Handler (WebhookSig α) Thrown σ) headers rawBody ip s,
      (h (.verifyWebhook headers rawBody ip) s).1 ≠ .ok true →
      (processWebhookHttp α headers rawBody ip).run h s =
        (.ok ⟨.number 401, .error "Unauthorized"⟩,
          (h (.verifyWebhook headers rawBody ip) s).2) :=
  ⟨fun _ _ _ _ => verifyWebhook_iff, fun h _ _ _ _ => run_processWebhookHttp_of_unverified h⟩

/-- The SHA-256 digest of `{}` under the key `secret`, and blank digests otherwise. -/
def sampleHmac : Hmac where
  digest
    | .sha256, key, message =>
      if key = utf8 (lit "secret") ∧ message = utf8 (lit "\x7b\x7d") then
        [119, 50, 89, 2, 202, 202, 129, 45, 194, 89, 115, 58, 172, 208, 70, 183, 56, 23, 55, 44,
          119, 123, 141, 149, 180, 2, 100, 116, 116, 81, 110, 19]
      else List.replicate 32 0
    | algorithm, _, _ => List.replicate algorithm.size 0
  length_digest := by
    intro algorithm key message
    cases algorithm with
    | sha256 => dsimp only; split_ifs <;> rfl
    | _ => exact List.length_replicate

def sumsubHost (H : Hmac) (webhookSecret : Option Text) (allowMissingSecret : Bool) :
    Handler (WebhookSig Unit) Thrown (List (WebhookOp Unit))
  | .verifyWebhook headers rawBody ip, log =>
    (.ok (verifyWebhook H webhookSecret allowMissingSecret headers rawBody),
      log ++ [.verifyWebhook headers rawBody ip])
  | .parseWebhookEvent rawBody, log => (.ok (some ()), log ++ [.parseWebhookEvent rawBody])
  | .handleWebhookEvent event, log => (.ok .unknown_session, log ++ [.handleWebhookEvent event])

def signedHeaders (value : HeaderValue) : WebhookHeaders :=
  fun name => if name = digestHeader then some value else none

/-- A signed webhook verifies, and one that is signed twice is not even parsed. -/
theorem only_signed_webhooks_act_signed :
    let digest := lit "77325902caca812dc259733aacd046b73817372c777b8d95b402647474516e13"
    let body := lit "\x7b\x7d"
    let twice := signedHeaders (.many [digest, digest])
    verifyWebhook sampleHmac (some (lit "secret")) false (signedHeaders (.single digest)) body ∧
      (processWebhookHttp Unit twice body none).run
          (sumsubHost sampleHmac (some (lit "secret")) false) [] =
        (.ok ⟨.number 401, .error "Unauthorized"⟩, [.verifyWebhook twice body none]) := by
  intro digest body twice
  obtain ⟨exactly, refused⟩ := only_signed_webhooks_act sampleHmac
  constructor
  · refine (exactly _ _ _ _).mpr (Or.inr ⟨_, .sha256, rfl, by decide, Or.inl ⟨rfl, rfl⟩, ?_⟩)
    decide +kernel
  · refine refused (sumsubHost sampleHmac (some (lit "secret")) false) twice body none [] ?_
    decide +kernel

end Handler

end Kyc.Sumsub
