import Kyc.Http.Handlers
import Kyc.Service.Sample
import Kyc.Service.Writes

/-! # What a provider's failure answers

A provider that rejects to mint is reported by its own code when it has one, whatever that
is. Exactly the codes of the wire contract, and errors without a code, come out as the
contract says; the answer to any other code is an internal error, or worse.
-/

namespace Kyc.Http

variable {deps : VerificationServiceDeps} {w : World} {α : Type}

def dueCode (error : Thrown) : ErrorCode :=
  ((getErrorCode error).bind errorCode?).getD .providerUnavailable

def Classified (error : Thrown) : Prop :=
  ∀ code, truthy (getErrorCode error) = some code → (errorCode? code).isSome

def Rejected (deps : VerificationServiceDeps) (w : World) (p : Service α) (error : Thrown) :
    Prop :=
  ∃ c, (p.run (exec deps) w).2.providerCalls = w.providerCalls ++ [c] ∧
    deps.provider.answer w.providerCalls.length c = .error error

def Reports (deps : VerificationServiceDeps) (w : World) (p : Service α) (code : ErrorCode) :
    Prop :=
  ∃ e, (p.run (exec deps) w).1 = .error e ∧ getErrorCode e = some code.name

def Answers (deps : VerificationServiceDeps) (w : World) (p : Service (HttpResult α))
    (code : ErrorCode) : Prop :=
  ∃ message, (p.run (exec deps) w).1 = .ok ⟨.number (httpStatus code), .coded code.name message⟩

theorem errorCode?_name (code : ErrorCode) : errorCode? code.name = some code := by
  cases code <;> decide

theorem name_of_errorCode? {name : String} {code : ErrorCode} (h : errorCode? name = some code) :
    code.name = name := by
  simpa using List.find?_some h

theorem failed_of_code {error : Thrown} {code : ErrorCode}
    (h : getErrorCode error = some code.name) :
    (failed error : HttpResult α) =
      ⟨.number (httpStatus code), .coded code.name (messageOf error)⟩ := by
  have named : truthy (some code.name) = some code.name := by cases code <;> decide
  simp only [failed, h, named, statusByCode, errorCode?_name]

theorem getErrorCode_codedOrUnavailable_iff (error : Thrown) :
    getErrorCode (codedOrUnavailable error) = some (dueCode error).name ↔ Classified error := by
  cases hcode : truthy (getErrorCode error) with
  | none =>
    have uncoded : (getErrorCode error).bind errorCode? = none := by
      cases hc : getErrorCode error with
      | none => rfl
      | some code =>
        obtain rfl : code = "" := by
          by_contra hne
          rw [truthy_eq_some.mpr ⟨hc, hne⟩] at hcode
          cases hcode
        decide
    refine iff_of_true ?_ fun code h => by rw [hcode] at h; cases h
    rw [codedOrUnavailable, hcode, dueCode, uncoded]
    rfl
  | some code =>
    have coded := (truthy_eq_some.mp hcode).1
    have classified : Classified error ↔ (errorCode? code).isSome := by
      constructor
      · exact fun h => h code hcode
      · rintro h code' hcode'
        obtain rfl := Option.some.inj (hcode.symm.trans hcode')
        exact h
    rw [classified, codedOrUnavailable, hcode, coded, dueCode, coded, Option.bind_some]
    cases hknown : errorCode? code with
    | some known => exact iff_of_true (by simp [name_of_errorCode? hknown]) rfl
    | none =>
      refine iff_of_false ?_ (by simp)
      rintro h
      obtain rfl := Option.some.inj h
      rw [Option.getD_none, errorCode?_name] at hknown
      cases hknown

theorem failed_iff_of_code {error : Thrown} {code : ErrorCode} :
    (∃ message, (failed error : HttpResult α) =
      ⟨.number (httpStatus code), .coded code.name message⟩) ↔
      getErrorCode error = some code.name := by
  constructor
  · rintro ⟨message, h⟩
    unfold failed at h
    split at h
    · rename_i found hcode
      split at h
      · obtain ⟨-, hbody⟩ := HttpResult.mk.inj h
        obtain ⟨rfl, -⟩ := HttpBody.coded.inj hbody
        exact (truthy_eq_some.mp hcode).1
      · cases (HttpResult.mk.inj h).2
    · cases (HttpResult.mk.inj h).2
  · exact fun h => ⟨_, failed_of_code h⟩

theorem failed_codedOrUnavailable_iff (error : Thrown) :
    (∃ message, (failed (codedOrUnavailable error) : HttpResult α) =
      ⟨.number (httpStatus (dueCode error)), .coded (dueCode error).name message⟩) ↔
      Classified error := by
  rw [← getErrorCode_codedOrUnavailable_iff, failed_iff_of_code]

section Runs

variable {p : Service α} {error : Thrown}

theorem Rejected.answer (h : Rejected deps w p error) {c : ProviderCall}
    (hcalls : (p.run (exec deps) w).2.providerCalls = w.providerCalls ++ [c]) :
    deps.provider.answer w.providerCalls.length c = .error error := by
  obtain ⟨c', hc, hanswer⟩ := h
  obtain rfl := List.head_eq_of_cons_eq (List.append_cancel_left (hcalls.symm.trans hc))
  exact hanswer

theorem Rejected.asks (h : Rejected deps w p error) :
    (p.run (exec deps) w).2.providerCalls ≠ w.providerCalls := by
  obtain ⟨c, hc, -⟩ := h
  rw [hc]
  simp

variable {userId : Option String} {body : Option JsonValue}

/-- A start that gets to the provider asks it once, and throws what its rejection becomes. -/
theorem run_start_of_valid {owner : String} {opts : CreateSessionOptions}
    (ho : requireUser userId = .ok owner) (hv : validateStartInput body = .ok opts) :
    ((start deps userId body).run (exec deps) w).2.providerCalls
        = w.providerCalls ++ [.createSession owner opts] ∧
      ∀ error, deps.provider.createSession w.providerCalls.length owner opts = .error error →
        ((start deps userId body).run (exec deps) w).1 = .error (codedOrUnavailable error) := by
  have before : (w.withNew deps owner opts).providerCalls = w.providerCalls := rfl
  simp only [start, Program.run_bind, Program.run_ofExcept, ho, hv, Program.run_tryCatch,
    Service.run_transaction, execTransaction, run_persistBody, Provider.run_createSession, before]
  cases deps.provider.createSession w.providerCalls.length owner opts with
  | error e =>
    simp only [Service.run_direct, run_audit, Program.run_throw]
    exact ⟨rfl, fun error h => by rw [Except.error.inj h]⟩
  | ok minted =>
    refine ⟨?_, by simp⟩
    dsimp only
    cases truthy minted.providerApplicantId with
    | none => rfl
    | some a =>
      have bound : (w.withNew deps owner opts).tables.sessions.get (newRecord deps w owner opts).id
          = some (newRecord deps w owner opts) := Table.get_set_self _ _
      simp only [Program.run_bind, Service.run_direct, Program.run_pure]
      rw [run_bindApplicantId (w := (w.withNew deps owner opts).asked _) bound]
      rfl

theorem run_start_of_rejected (h : Rejected deps w (start deps userId body) error) :
    ((start deps userId body).run (exec deps) w).1 = .error (codedOrUnavailable error) := by
  cases ho : requireUser userId with
  | error e => exact absurd (by simp [start, ho]) h.asks
  | ok owner =>
    cases hv : validateStartInput body with
    | error e => exact absurd (by simp [start, ho, hv]) h.asks
    | ok opts =>
      obtain ⟨calls, rejects⟩ := run_start_of_valid (w := w) ho hv
      exact rejects error (h.answer calls)

theorem run_refresh_of_owned {sessionId : Option String} {owner id : String} {r : SessionRecord}
    (ho : requireUser userId = .ok owner) (hi : requireId sessionId "sessionId" = .ok id)
    (hg : MemoryStore.getSessionByIdForUser w.tables id owner = some r)
    (ht : ¬ r.status.Terminal) :
    ((refresh userId sessionId).run (exec deps) w).2.providerCalls = w.providerCalls ++
        [.refreshToken ⟨owner, r.providerApplicantId⟩ ⟨r.platform, r.levelName, none⟩] ∧
      ∀ error, deps.provider.refreshToken w.providerCalls.length
          ⟨owner, r.providerApplicantId⟩ ⟨r.platform, r.levelName, none⟩ = .error error →
        ((refresh userId sessionId).run (exec deps) w).1 = .error (codedOrUnavailable error) := by
  simp only [refresh, requireOwned, Program.run_bind, Program.run_ofExcept, ho, hi,
    Service.run_direct, Tx.run_getSessionByIdForUser, hg, Program.run_pure, if_neg ht,
    Program.run_tryCatch, Provider.run_refreshToken, World.providerCalls_ticked]
  cases deps.provider.refreshToken w.providerCalls.length ⟨owner, r.providerApplicantId⟩
      ⟨r.platform, r.levelName, none⟩ with
  | error e => exact ⟨rfl, fun error h => by rw [Except.error.inj h]; rfl⟩
  | ok token =>
    simp only [run_audit]
    exact ⟨rfl, by simp⟩

theorem run_refresh_of_rejected {sessionId : Option String}
    (h : Rejected deps w (refresh userId sessionId) error) :
    ((refresh userId sessionId).run (exec deps) w).1 = .error (codedOrUnavailable error) := by
  cases ho : requireUser userId with
  | error e => exact absurd (by simp [refresh, ho]) h.asks
  | ok owner =>
    cases hi : requireId sessionId "sessionId" with
    | error e => exact absurd (by simp [refresh, ho, hi]) h.asks
    | ok id =>
      cases hg : MemoryStore.getSessionByIdForUser w.tables id owner with
      | none => exact absurd (by simp [refresh, requireOwned, ho, hi, hg]) h.asks
      | some r =>
        by_cases ht : r.status.Terminal
        · exact absurd (by simp [refresh, requireOwned, ho, hi, hg, ht]) h.asks
        · obtain ⟨calls, rejects⟩ := run_refresh_of_owned ho hi hg ht
          exact rejects error (h.answer calls)

theorem run_mint_of_valid {levelFor : Option LevelForHook} {owner : String}
    {opts : CreateSessionOptions} {levelName : Option String}
    (ho : requireUser userId = .ok owner) (hv : validateStartInput body = .ok opts)
    (hl : mintedLevel levelFor opts owner = .ok levelName) :
    ((mintAccessTokenHttp userId body levelFor).run (exec deps) w).2.providerCalls
        = w.providerCalls ++ [.createSession owner { opts with levelName }] ∧
      ∀ error, deps.provider.createSession w.providerCalls.length owner { opts with levelName }
          = .error error →
        ((mintAccessTokenHttp userId body levelFor).run (exec deps) w).1
          = .ok (failed (codedOrUnavailable error)) := by
  simp only [mintAccessTokenHttp, Program.run_bind, Program.run_ofExcept, ho, hv, hl,
    Program.run_tryCatch, Provider.run_createSession]
  cases deps.provider.createSession w.providerCalls.length owner { opts with levelName } with
  | error e => exact ⟨rfl, fun error h => by rw [Except.error.inj h]; rfl⟩
  | ok minted => exact ⟨rfl, by simp⟩

theorem run_mint_of_rejected {levelFor : Option LevelForHook}
    (h : Rejected deps w (mintAccessTokenHttp userId body levelFor) error) :
    ((mintAccessTokenHttp userId body levelFor).run (exec deps) w).1
      = .ok (failed (codedOrUnavailable error)) := by
  cases ho : requireUser userId with
  | error e => exact absurd (by simp [mintAccessTokenHttp, ho]) h.asks
  | ok owner =>
    cases hv : validateStartInput body with
    | error e => exact absurd (by simp [mintAccessTokenHttp, ho, hv]) h.asks
    | ok opts =>
      cases hl : mintedLevel levelFor opts owner with
      | error e => exact absurd (by simp [mintAccessTokenHttp, ho, hv, hl]) h.asks
      | ok levelName =>
        obtain ⟨calls, rejects⟩ := run_mint_of_valid (w := w) ho hv hl
        exact rejects error (h.answer calls)

theorem run_answer {p : Service α} {e : Thrown} (h : (p.run (exec deps) w).1 = .error e) :
    ((tryCatch (do let a ← p; pure ⟨.number 200, .result a⟩) fun error => pure (failed error) :
      Service (HttpResult α)).run (exec deps) w).1 = .ok (failed e) := by
  simp only [Program.run_tryCatch, Program.run_bind, Program.run_pure]
  rcases hr : p.run (exec deps) w with ⟨_ | a, w'⟩
  · rw [hr] at h
    rw [Except.error.inj h]
  · rw [hr] at h
    cases h

theorem reports_iff_of_run {p : Service α}
    (h : (p.run (exec deps) w).1 = .error (codedOrUnavailable error)) :
    Reports deps w p (dueCode error) ↔ Classified error := by
  rw [← getErrorCode_codedOrUnavailable_iff]
  constructor
  · rintro ⟨e, he, hcode⟩
    rw [Except.error.inj (h.symm.trans he)]
    exact hcode
  · exact fun hcode => ⟨_, h, hcode⟩

theorem answers_iff_of_run {p : Service (HttpResult α)}
    (h : (p.run (exec deps) w).1 = .ok (failed (codedOrUnavailable error))) :
    Answers deps w p (dueCode error) ↔ Classified error := by
  rw [← failed_codedOrUnavailable_iff (α := α), Answers, h]
  simp only [Except.ok.injEq]

end Runs

/-- A provider's rejection is reported and answered as the wire contract has it exactly if its
error is classified. -/
theorem provider_failures_surface_iff (deps : VerificationServiceDeps) (w : World)
    (error : Thrown) :
    (∀ userId body, Rejected deps w (start deps userId body) error →
      (Reports deps w (start deps userId body) (dueCode error) ↔ Classified error) ∧
      (Answers deps w (startSessionHttp deps userId body) (dueCode error) ↔ Classified error)) ∧
    (∀ userId sessionId, Rejected deps w (refresh userId sessionId) error →
      (Reports deps w (refresh userId sessionId) (dueCode error) ↔ Classified error)) ∧
    (∀ userId body, Rejected deps w (refresh userId (some (sessionIdOf body))) error →
      (Answers deps w (refreshSessionHttp userId body) (dueCode error) ↔ Classified error)) ∧
    ∀ userId body levelFor, Rejected deps w (mintAccessTokenHttp userId body levelFor) error →
      (Answers deps w (mintAccessTokenHttp userId body levelFor) (dueCode error) ↔
        Classified error) := by
  refine ⟨fun userId body h => ?_, fun userId sessionId h => ?_, fun userId body h => ?_,
    fun userId body levelFor h => ?_⟩
  · have thrown := run_start_of_rejected h
    exact ⟨reports_iff_of_run thrown, answers_iff_of_run (run_answer thrown)⟩
  · exact reports_iff_of_run (run_refresh_of_rejected h)
  · exact answers_iff_of_run (run_answer (run_refresh_of_rejected h))
  · exact answers_iff_of_run (run_mint_of_rejected h)

def rejectingProvider (error : Thrown) : VerificationProvider where
  createSession _ _ _ := .error error
  refreshToken _ _ _ := .error error
  getStatus _ _ := .ok .initial
  getStatusByUserId := none

/-- An error without a code, at a start, at a refresh and at a mint without a store. -/
theorem provider_failures_surface_iff_uncoded :
    let deps := steadyDeps (rejectingProvider (plainError "socket hang up"))
    let w := worldOf [sessionOf "s" "u" none none .pending 0 0] (by simp)
    let body := some (startInput "basic")
    let refreshed := some (.object [("sessionId", .string "s")])
    Answers deps w (startSessionHttp deps (some "u") body) .providerUnavailable ∧
      Answers deps w (refreshSessionHttp (some "u") refreshed) .providerUnavailable ∧
      Answers deps w (mintAccessTokenHttp (some "u") body none) .providerUnavailable := by
  intro deps w body refreshed
  obtain ⟨started, -, again, minted⟩ :=
    provider_failures_surface_iff deps w (plainError "socket hang up")
  have classified : Classified (plainError "socket hang up") := fun code h => by cases h
  have named : requireId (some (sessionIdOf refreshed)) "sessionId" = .ok "s" := by decide
  have owned : MemoryStore.getSessionByIdForUser w.tables "s" "u"
      = some (sessionOf "s" "u" none none .pending 0 0) := by decide
  have asks :
      ((refresh (some "u") (some (sessionIdOf refreshed))).run (exec deps) w).2.providerCalls
      = w.providerCalls ++ [.refreshToken ⟨"u", none⟩ ⟨.web, none, none⟩] :=
    (run_refresh_of_owned rfl named owned (by decide)).1
  exact ⟨(started (some "u") body ⟨_, rfl, rfl⟩).2.mpr classified,
    (again (some "u") refreshed ⟨_, asks, rfl⟩).mpr classified,
    (minted (some "u") body none ⟨_, rfl, rfl⟩).mpr classified⟩

/-- A refused connection at the provider is answered as an internal error. -/
theorem refused_connection_answers_internal_error :
    let refused : Thrown :=
      .object (some "connect ECONNREFUSED 127.0.0.1:443") .nullish (.text "ECONNREFUSED")
    let deps := steadyDeps (rejectingProvider refused)
    let mint := mintAccessTokenHttp (some "u") (some (startInput "basic")) none
    Rejected deps .empty mint refused ∧
      (mint.run (exec deps) .empty).1 = .ok ⟨.number 500, .error "INTERNAL_ERROR"⟩ ∧
      ¬ Answers deps .empty mint (dueCode refused) := by
  intro refused deps mint
  have answer : (mint.run (exec deps) .empty).1 = .ok ⟨.number 500, .error "INTERNAL_ERROR"⟩ := rfl
  refine ⟨⟨_, rfl, rfl⟩, answer, ?_⟩
  rintro ⟨message, h⟩
  cases (HttpResult.mk.inj (Except.ok.inj (answer.symm.trans h))).2

end Kyc.Http
