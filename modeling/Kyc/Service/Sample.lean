import Kyc.Service.Sessions

/-! # A concrete service

A service over a provider that creates sessions and always knows the same answers;
the general results are tried out on it.
-/

namespace Kyc

def unaryId : ℕ ↪ String where
  toFun n := String.ofList (List.replicate (n + 1) 'x')
  inj' m n h := by
    have := congrArg (fun s => s.toList.length) h
    simpa using this

/-- A provider that mints tokens, binds the given applicant when it creates a session, and
answers every lookup with the given status. -/
def steadyProvider (applicantId : Option String) (status : VerificationStatus)
    (byUser : Option UserStatusLookup) : VerificationProvider where
  createSession _ _ _ := .ok ⟨applicantId, "token"⟩
  refreshToken _ _ _ := .ok ⟨"token"⟩
  getStatus _ _ := .ok status
  getStatusByUserId := byUser.map fun found _ _ => .ok found

def steadyDeps (provider : VerificationProvider) : VerificationServiceDeps where
  provider := provider
  providerName := "sumsub"
  storeClock n := n
  publicBaseUrl := "https://kyc.example"
  newId := unaryId
  onStatusTransition := none
  hostedUrlFor := none
  urlOrigin := some

def bareDeps : VerificationServiceDeps := steadyDeps (steadyProvider none .initial none)

def startInput (level : String) : JsonValue :=
  .object [("platform", .string "WEB"), ("levelName", .string level)]

def sessionOf (id userId : String) (applicantId level : Option String)
    (status : VerificationStatus) (createdAt updatedAt : ℤ) : SessionRecord :=
  { id
    userId
    provider := "sumsub"
    providerApplicantId := applicantId
    levelName := level
    locale := none
    platform := .web
    status
    createdAt
    updatedAt }

def worldOf (rows : List SessionRecord) (h : (rows.map SessionRecord.id).Nodup) : World :=
  ⟨⟨⟨rows, h⟩, []⟩, 0, 0, [], []⟩

theorem head?_unaryId (n : ℕ) : (unaryId n).toList.head? = some 'x' := by
  change (String.ofList (List.replicate (n + 1) 'x')).toList.head? = some 'x'
  rw [String.toList_ofList, List.replicate_succ, List.head?_cons]

theorem fresh_worldOf {rows : List SessionRecord} (hn : (rows.map SessionRecord.id).Nodup)
    (h : ∀ r ∈ rows, r.id.toList.head? ≠ some 'x') (provider : VerificationProvider) :
    (worldOf rows hn).Fresh (steadyDeps provider) := by
  intro r hr n _ hid
  apply h r hr
  rw [hid]
  exact head?_unaryId n

def eventOf (applicantId userId : String) (status : VerificationStatus) (level : Option String) :
    WebhookEvent :=
  { providerApplicantId := applicantId
    externalUserId := some userId
    status := some status
    rawStatus := ""
    levelName := level
    rejectLabels := none }

end Kyc
