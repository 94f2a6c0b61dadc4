import Kyc.Http.Failures
import Kyc.Service.StartFailures

/-! # What bad input answers

The bodies that a start or a mint accepts, stated without the code that validates them. A
body is refused with a `VALIDATION_ERROR`, except where a text that validation gets to is
neither a text nor left out: it has no `trim`, and the answer is an internal error.
-/

namespace Kyc.Http

/-- What an optional text reads as: nothing if it is left out or null, else an accepted text. -/
inductive ReadsText (accepted : String → Prop) : Option JsonValue → Option String → Prop
  | absent : ReadsText accepted none none
  | null : ReadsText accepted (some .null) none
  | text {s : String} (h : accepted s) : ReadsText accepted (some (.string s)) (some s)

def Bounded (maxLength : ℕ) (s : String) : Prop := isBlank s = false ∧ utf16Length s ≤ maxLength

/-- What a body reads as. -/
structure Reads (body : Option JsonValue) (opts : CreateSessionOptions) : Prop where
  platform : verificationPlatform? (JsonValue.field? body "platform") = some opts.platform
  levelName : ReadsText (Bounded 100) (JsonValue.field? body "levelName") opts.levelName
  locale : ReadsText (localePattern ·) (JsonValue.field? body "locale") opts.locale

def TextField (value : Option JsonValue) : Prop :=
  value = none ∨ value = some .null ∨ ∃ s, value = some (.string s)

/-- The fields that validation asks for a text are no other values: the level once the platform
is known, the locale once the level is accepted. -/
structure ReadableTexts (body : Option JsonValue) : Prop where
  levelName : (verificationPlatform? (JsonValue.field? body "platform")).isSome →
    TextField (JsonValue.field? body "levelName")
  locale : (verificationPlatform? (JsonValue.field? body "platform")).isSome →
    (∃ level, ReadsText (Bounded 100) (JsonValue.field? body "levelName") level) →
    TextField (JsonValue.field? body "locale")

section Texts

variable {accepted : String → Prop} {value : Option JsonValue} {name : String} {maxLength : ℕ}

theorem ReadsText.textField {v : Option String} (h : ReadsText accepted value v) :
    TextField value := by
  cases h with
  | absent => exact Or.inl rfl
  | null => exact Or.inr (Or.inl rfl)
  | text h => exact Or.inr (Or.inr ⟨_, rfl⟩)

theorem optionalText_eq_ok_iff {v : Option String} :
    optionalText value name maxLength = .ok v ↔ ReadsText (Bounded maxLength) value v := by
  constructor
  · intro h
    unfold optionalText at h
    split at h
    · cases h
      exact .absent
    · cases h
      exact .null
    · rename_i s
      split at h
      · cases h
      · rename_i hblank
        split at h
        · cases h
        · rename_i hlength
          cases h
          exact .text ⟨by simpa using hblank, Nat.le_of_not_lt hlength⟩
    · cases h
  · intro h
    cases h with
    | absent => rfl
    | null => rfl
    | text h => simp [optionalText, h.1, Nat.not_lt.mpr h.2]

/-- A text that is refused is a `VALIDATION_ERROR`; any other value has no `trim`. -/
theorem optionalText_eq_error {e : Thrown} (h : optionalText value name maxLength = .error e) :
    (TextField value ∧ ∃ message, e = Errors.validationError message) ∨
      (¬ TextField value ∧ e = plainError "value.trim is not a function") := by
  unfold optionalText at h
  split at h
  · cases h
  · cases h
  · left
    refine ⟨Or.inr (Or.inr ⟨_, rfl⟩), ?_⟩
    split at h
    · cases h
      exact ⟨_, rfl⟩
    · split at h
      · cases h
        exact ⟨_, rfl⟩
      · cases h
  · rename_i v hnull hstring
    right
    refine ⟨?_, (Except.error.inj h).symm⟩
    rintro (hv | hv | ⟨s, hv⟩)
    · cases hv
    · exact hnull (Option.some.inj hv)
    · exact hstring s (Option.some.inj hv)

theorem not_trimmed_of_lower {c : Char} (h : 'a' ≤ c ∧ c ≤ 'z') : isTrimmed c = false := by
  rw [← Bool.not_eq_true]
  intro ht
  rcases of_decide_eq_true ht with hc | hc
  · have apart : ['\t', '\n', '\x0b', '\x0c', '\r', ' ', '\u00a0', '\u1680', '\u2028',
        '\u2029', '\u202f', '\u205f', '\u3000', '\ufeff'].all fun d => ¬ ('a' ≤ d ∧ d ≤ 'z') := by
      decide
    exact of_decide_eq_true (List.all_eq_true.mp apart c hc) h
  · exact absurd (Char.le_trans hc.1 h.2) (by decide)

theorem bounded_of_localePattern {s : String} (h : localePattern s) :
    Bounded maxLocaleLength s := by
  unfold localePattern at h
  dsimp only at h
  unfold Bounded maxLocaleLength utf16Length isBlank
  split at h
  · rename_i a b hs
    have ha : 'a' ≤ a ∧ a ≤ 'z' := (of_decide_eq_true h).1
    rw [hs, List.all_cons, not_trimmed_of_lower ha, Bool.false_and]
    refine ⟨rfl, ?_⟩
    simp only [List.map_cons, List.map_nil, List.sum_cons, List.sum_nil]
    grind
  · rename_i a b c d hs
    have ha : 'a' ≤ a ∧ a ≤ 'z' := (of_decide_eq_true h).1
    rw [hs, List.all_cons, not_trimmed_of_lower ha, Bool.false_and]
    refine ⟨rfl, ?_⟩
    simp only [List.map_cons, List.map_nil, List.sum_cons, List.sum_nil]
    grind
  · cases h

theorem readsText_localePattern_iff {v : Option String} :
    ReadsText (localePattern ·) value v ↔
      ReadsText (Bounded maxLocaleLength) value v ∧ ∀ s, v = some s → localePattern s := by
  constructor
  · intro h
    cases h with
    | absent => exact ⟨.absent, fun s hs => by cases hs⟩
    | null => exact ⟨.null, fun s hs => by cases hs⟩
    | text h => exact ⟨.text (bounded_of_localePattern h), fun s hs => by cases hs; exact h⟩
  · rintro ⟨h, hp⟩
    cases h with
    | absent => exact .absent
    | null => exact .null
    | text h => exact .text (hp _ rfl)

end Texts

section Bodies

variable {body : Option JsonValue}

theorem Reads.readableTexts {opts : CreateSessionOptions} (h : Reads body opts) :
    ReadableTexts body :=
  ⟨fun _ => h.levelName.textField, fun _ _ => h.locale.textField⟩

theorem reads_of_validateStartInput {opts : CreateSessionOptions}
    (h : validateStartInput body = .ok opts) : Reads body opts := by
  unfold validateStartInput at h
  split at h
  · cases h
  · rename_i platform hp
    cases hl : optionalText (JsonValue.field? body "levelName") "levelName" maxLevelNameLength with
    | error e => rw [hl] at h; cases h
    | ok levelName =>
      cases hc : optionalText (JsonValue.field? body "locale") "locale" maxLocaleLength with
      | error e => rw [hl, hc] at h; cases h
      | ok locale =>
        rw [hl, hc] at h
        have level := optionalText_eq_ok_iff.mp hl
        have read := optionalText_eq_ok_iff.mp hc
        cases locale with
        | none =>
          cases h
          exact ⟨hp, level, readsText_localePattern_iff.mpr ⟨read, fun s hs => by cases hs⟩⟩
        | some s =>
          by_cases hs : localePattern s
          · dsimp only [bind, Except.bind] at h
            rw [if_pos hs] at h
            cases h
            exact ⟨hp, level,
              readsText_localePattern_iff.mpr ⟨read, fun t ht => by cases ht; exact hs⟩⟩
          · dsimp only [bind, Except.bind] at h
            rw [if_neg hs] at h
            cases h

theorem Reads.validateStartInput {opts : CreateSessionOptions} (h : Reads body opts) :
    validateStartInput body = .ok opts := by
  obtain ⟨platform, levelName, locale⟩ := opts
  obtain ⟨read, pattern⟩ := readsText_localePattern_iff.mp h.locale
  have hp : verificationPlatform? (JsonValue.field? body "platform") = some platform := h.platform
  have hl : optionalText (JsonValue.field? body "levelName") "levelName" maxLevelNameLength
      = .ok levelName := optionalText_eq_ok_iff.mpr h.levelName
  have hc : optionalText (JsonValue.field? body "locale") "locale" maxLocaleLength = .ok locale :=
    optionalText_eq_ok_iff.mpr read
  rw [Kyc.validateStartInput, hp]
  dsimp only
  rw [hl, hc]
  cases locale with
  | none => rfl
  | some s =>
    dsimp only [bind, Except.bind]
    rw [if_pos (pattern s rfl)]

/-- A body that is refused is a `VALIDATION_ERROR`, unless a value has no `trim`. -/
theorem validateStartInput_eq_error {e : Thrown} (h : Kyc.validateStartInput body = .error e) :
    (ReadableTexts body ∧ ∃ message, e = Errors.validationError message) ∨
      (¬ ReadableTexts body ∧ e = plainError "value.trim is not a function") := by
  unfold Kyc.validateStartInput at h
  split at h
  · rename_i hp
    left
    refine ⟨⟨fun hs => ?_, fun hs => ?_⟩, _, (Except.error.inj h).symm⟩
    · rw [hp] at hs; cases hs
    · rw [hp] at hs; cases hs
  · rename_i platform hp
    have known : (verificationPlatform? (JsonValue.field? body "platform")).isSome := by
      rw [hp]
      rfl
    cases hl : optionalText (JsonValue.field? body "levelName") "levelName" maxLevelNameLength with
    | error e' =>
      rw [hl] at h
      obtain rfl := Except.error.inj h
      rcases optionalText_eq_error hl with ⟨field, message⟩ | ⟨field, rfl⟩
      · left
        refine ⟨⟨fun _ => field, fun _ ⟨level, read⟩ => ?_⟩, message⟩
        cases hl.symm.trans (optionalText_eq_ok_iff.mpr read)
      · exact Or.inr ⟨fun hr => field (hr.levelName known), rfl⟩
    | ok levelName =>
      have level := optionalText_eq_ok_iff.mp hl
      cases hc : optionalText (JsonValue.field? body "locale") "locale" maxLocaleLength with
      | error e' =>
        rw [hl, hc] at h
        obtain rfl := Except.error.inj h
        rcases optionalText_eq_error hc with ⟨field, message⟩ | ⟨field, rfl⟩
        · exact Or.inl ⟨⟨fun _ => level.textField, fun _ _ => field⟩, message⟩
        · exact Or.inr ⟨fun hr => field (hr.locale known ⟨_, level⟩), rfl⟩
      | ok locale =>
        rw [hl, hc] at h
        have field := (optionalText_eq_ok_iff.mp hc).textField
        refine Or.inl ⟨⟨fun _ => level.textField, fun _ _ => field⟩, ?_⟩
        dsimp only [bind, Except.bind] at h
        split at h
        · split at h
          · cases h
          · exact ⟨_, (Except.error.inj h).symm⟩
        · cases h

end Bodies

section Requests

variable {α : Type} {deps : VerificationServiceDeps} {w : World} {userId : Option String}
  {owner : String} {body : Option JsonValue} {p : Service (HttpResult α)}
  {Stored : CreateSessionOptions → Tables → Prop}

/-- What a request of a user owes its input. A bad body is answered with a `VALIDATION_ERROR`, and
no other one is; it leaves the provider and the tables alone. Of any other body the values are
passed on as they are. -/
structure HonoursInput (deps : VerificationServiceDeps) (w : World) (owner : String)
    (body : Option JsonValue) (p : Service (HttpResult α))
    (Stored : CreateSessionOptions → Tables → Prop) : Prop where
  rejects : Answers deps w p .validationError ↔ ¬ ∃ opts, Reads body opts
  untouched : (¬ ∃ opts, Reads body opts) →
    (p.run (exec deps) w).2.providerCalls = w.providerCalls ∧
      (p.run (exec deps) w).2.tables = w.tables
  passes : ∀ opts, Reads body opts →
    (p.run (exec deps) w).2.providerCalls = w.providerCalls ++ [.createSession owner opts] ∧
      Stored opts (p.run (exec deps) w).2.tables

/-- The provider does not reject what the body asks for with a `VALIDATION_ERROR` of its own. -/
def AcceptedByProvider (deps : VerificationServiceDeps) (w : World) (owner : String)
    (body : Option JsonValue) : Prop :=
  ∀ opts, Reads body opts → ∀ error,
    deps.provider.createSession w.providerCalls.length owner opts = .error error →
    getErrorCode error ≠ some ErrorCode.validationError.name

/-- What a handler does with a body: it refuses it, or asks the provider once and answers with
what comes of that. -/
structure Handles (deps : VerificationServiceDeps) (w : World) (owner : String)
    (body : Option JsonValue) (p : Service (HttpResult α))
    (Stored : CreateSessionOptions → Tables → Prop) : Prop where
  refused : ∀ e, Kyc.validateStartInput body = .error e →
    p.run (exec deps) w = (.ok (failed e), w)
  passed : ∀ opts, Kyc.validateStartInput body = .ok opts →
    (p.run (exec deps) w).2.providerCalls = w.providerCalls ++ [.createSession owner opts] ∧
      Stored opts (p.run (exec deps) w).2.tables
  minted : ∀ opts minted, Kyc.validateStartInput body = .ok opts →
    deps.provider.createSession w.providerCalls.length owner opts = .ok minted →
    ∃ b, (p.run (exec deps) w).1 = .ok ⟨.number 200, b⟩
  rejected : ∀ opts error, Kyc.validateStartInput body = .ok opts →
    deps.provider.createSession w.providerCalls.length owner opts = .error error →
    (p.run (exec deps) w).1 = .ok (failed (codedOrUnavailable error))

theorem getErrorCode_codedOrUnavailable_eq_validationError (error : Thrown) :
    getErrorCode (codedOrUnavailable error) = some ErrorCode.validationError.name ↔
      getErrorCode error = some ErrorCode.validationError.name := by
  unfold codedOrUnavailable
  cases hcode : truthy (getErrorCode error) with
  | some code => exact Iff.rfl
  | none =>
    have unavailable : getErrorCode Errors.providerUnavailable ≠
        some ErrorCode.validationError.name := by decide
    refine iff_of_false unavailable fun h => ?_
    rw [truthy_eq_some.mpr ⟨h, by decide⟩] at hcode
    cases hcode

theorem answers_iff_of_failed {e : Thrown} {code : ErrorCode}
    (h : (p.run (exec deps) w).1 = .ok (failed e)) :
    Answers deps w p code ↔ getErrorCode e = some code.name := by
  rw [← failed_iff_of_code (α := α), Answers, h]
  simp only [Except.ok.injEq]

/-- A good body can only fail with a `VALIDATION_ERROR` that the provider rejects it with. -/
theorem Handles.answers_validationError_iff (h : Handles deps w owner body p Stored)
    {opts : CreateSessionOptions} (hv : Kyc.validateStartInput body = .ok opts) :
    Answers deps w p .validationError ↔ ¬ AcceptedByProvider deps w owner body := by
  have unique : ∀ opts', Reads body opts' → opts' = opts := fun opts' h' =>
    Except.ok.inj (h'.validateStartInput.symm.trans hv)
  cases hp : deps.provider.createSession w.providerCalls.length owner opts with
  | ok minted =>
    obtain ⟨b, hb⟩ := h.minted opts minted hv hp
    refine iff_of_false ?_ (not_not.mpr ?_)
    · rintro ⟨message, hm⟩
      cases (HttpResult.mk.inj (Except.ok.inj (hb.symm.trans hm))).1
    · intro opts' h' error he
      obtain rfl := unique opts' h'
      cases hp.symm.trans he
  | error error =>
    rw [answers_iff_of_failed (h.rejected opts error hv hp),
      getErrorCode_codedOrUnavailable_eq_validationError]
    constructor
    · exact fun hc hacc => hacc opts (reads_of_validateStartInput hv) error hp hc
    · intro hacc
      by_contra hc
      refine hacc fun opts' h' error' he => ?_
      obtain rfl := unique opts' h'
      obtain rfl := Except.error.inj (hp.symm.trans he)
      exact hc

/-- A handler honours its input exactly if the texts of the body can be read and the provider has
no `VALIDATION_ERROR` of its own. -/
theorem Handles.honoursInput_iff (h : Handles deps w owner body p Stored) :
    HonoursInput deps w owner body p Stored ↔
      ReadableTexts body ∧ AcceptedByProvider deps w owner body := by
  cases hv : Kyc.validateStartInput body with
  | ok opts =>
    have read := reads_of_validateStartInput hv
    have answers := h.answers_validationError_iff hv
    constructor
    · intro honours
      refine ⟨read.readableTexts, ?_⟩
      by_contra hacc
      exact honours.rejects.mp (answers.mpr hacc) ⟨opts, read⟩
    · rintro ⟨-, hacc⟩
      refine ⟨?_, fun hn => absurd ⟨opts, read⟩ hn, fun opts' h' => ?_⟩
      · exact iff_of_false (fun ha => answers.mp ha hacc) (not_not.mpr ⟨opts, read⟩)
      · obtain rfl := Except.ok.inj (h'.validateStartInput.symm.trans hv)
        exact h.passed opts' hv
  | error e =>
    have unread : ¬ ∃ opts, Reads body opts := by
      rintro ⟨opts, read⟩
      cases read.validateStartInput.symm.trans hv
    have run := h.refused e hv
    have answers : Answers deps w p .validationError ↔
        getErrorCode e = some ErrorCode.validationError.name :=
      answers_iff_of_failed (by rw [run])
    rcases validateStartInput_eq_error hv with ⟨readable, message, rfl⟩ | ⟨readable, rfl⟩
    · refine iff_of_true ⟨iff_of_true (answers.mpr rfl) unread, fun _ => ?_, ?_⟩ ⟨readable, ?_⟩
      · rw [run]
        exact ⟨rfl, rfl⟩
      · exact fun opts read => absurd ⟨opts, read⟩ unread
      · exact fun opts read => absurd ⟨opts, read⟩ unread
    · refine iff_of_false (fun honours => ?_) fun hr => readable hr.1
      cases answers.mp (honours.rejects.mpr unread)

/-- The tables have one more session, of the user and with the given values. -/
def StoresNew (w : World) (owner : String) (opts : CreateSessionOptions) (t : Tables) : Prop :=
  ∃ row, t.sessions = w.tables.sessions.set row ∧ row.userId = owner ∧
    row.platform = opts.platform ∧ row.levelName = opts.levelName ∧ row.locale = opts.locale

theorem storesNew_of_started {minted : ProviderSession} {opts : CreateSessionOptions}
    {r : Except Thrown StartResult × World} (h : Started deps w owner opts minted r) :
    StoresNew w owner opts r.2.tables := by
  obtain ⟨row, hset, hid, -, -⟩ := h.row
  refine ⟨row, hset, ?_, ?_, ?_, ?_⟩
  · exact congrArg SessionIdentity.userId hid
  · exact congrArg SessionIdentity.platform hid
  · exact congrArg SessionIdentity.levelName hid
  · exact congrArg SessionIdentity.locale hid

variable (deps w) in
theorem run_startSessionHttp (userId : Option String) (body : Option JsonValue) :
    (startSessionHttp deps userId body).run (exec deps) w =
      match (start deps userId body).run (exec deps) w with
      | (.ok a, w') => (.ok ⟨.number 200, .result a⟩, w')
      | (.error e, w') => (.ok (failed e), w') := by
  simp only [startSessionHttp, Program.run_tryCatch, Program.run_bind, Program.run_pure]
  rcases (start deps userId body).run (exec deps) w with ⟨_ | a, w'⟩ <;> rfl

variable (deps w) (ho : requireUser userId = .ok owner)
include ho

theorem handles_mintAccessTokenHttp :
    Handles deps w owner body (mintAccessTokenHttp userId body none) fun _ t => t = w.tables where
  refused e hv := by
    simp only [mintAccessTokenHttp, Program.run_tryCatch, Program.run_bind, Program.run_ofExcept,
      ho, hv, Program.run_pure]
  passed opts hv := by
    refine ⟨(run_mint_of_valid ho hv rfl).1, ?_⟩
    simp only [mintAccessTokenHttp, Program.run_bind, Program.run_ofExcept, ho, hv, mintedLevel,
      Program.run_tryCatch, Provider.run_createSession]
    cases deps.provider.createSession w.providerCalls.length owner opts with
    | error e => rfl
    | ok minted => rfl
  minted opts minted hv hm := by
    simp only [mintAccessTokenHttp, Program.run_bind, Program.run_ofExcept, ho, hv, mintedLevel,
      Program.run_tryCatch, Provider.run_createSession, hm]
    exact ⟨_, rfl⟩
  rejected opts error hv hr := (run_mint_of_valid ho hv rfl).2 error hr

/-- A start handles its body, and stores a session with its values. -/
theorem handles_startSessionHttp :
    Handles deps w owner body (startSessionHttp deps userId body) (StoresNew w owner) where
  refused e hv := by
    rw [run_startSessionHttp]
    simp only [start, Program.run_bind, Program.run_ofExcept, ho, hv]
  passed opts hv := by
    have persisted := run_persistFailing_none deps w owner opts
    have state : ((startSessionHttp deps userId body).run (exec deps) w).2 =
        ((start deps userId body).run (exec deps) w).2 := by
      rw [run_startSessionHttp]
      rcases (start deps userId body).run (exec deps) w with ⟨_ | a, w'⟩ <;> rfl
    rw [state]
    refine ⟨(run_start_of_valid ho hv).1, ?_⟩
    cases hp : deps.provider.createSession w.providerCalls.length owner opts with
    | error error =>
      have abandoned := run_startFailing_of_rejected ho hv persisted hp
      rw [startFailing_none] at abandoned
      exact ⟨_, abandoned.sessions, rfl, rfl, rfl, rfl⟩
    | ok minted =>
      have started := run_startFailing_of_minted ho hv persisted hp
      rw [startFailing_none] at started
      exact storesNew_of_started started
  minted opts minted hv hm := by
    have persisted := run_persistFailing_none deps w owner opts
    have started := run_startFailing_of_minted ho hv persisted hm
    rw [startFailing_none] at started
    obtain ⟨result, hr, -⟩ := started.result
    refine ⟨.result result, ?_⟩
    rw [run_startSessionHttp, ← Prod.eta ((start deps userId body).run (exec deps) w), hr]
  rejected opts error hv hr := by
    rw [run_startSessionHttp, ← Prod.eta ((start deps userId body).run (exec deps) w),
      (run_start_of_valid ho hv).2 error hr]

end Requests

/-- The answers to a start and to a mint account for bad input exactly if the texts that
validation gets to are texts and the provider has no `VALIDATION_ERROR` of its own. -/
theorem bad_input_answers_400_iff (deps : VerificationServiceDeps) (w : World)
    (userId : Option String) (owner : String) (body : Option JsonValue)
    (ho : requireUser userId = .ok owner) :
    (HonoursInput deps w owner body (startSessionHttp deps userId body) (StoresNew w owner) ↔
      ReadableTexts body ∧ AcceptedByProvider deps w owner body) ∧
    (HonoursInput deps w owner body (mintAccessTokenHttp userId body none)
        (fun _ t => t = w.tables) ↔
      ReadableTexts body ∧ AcceptedByProvider deps w owner body) :=
  ⟨(handles_startSessionHttp deps w ho).honoursInput_iff,
    (handles_mintAccessTokenHttp deps w ho).honoursInput_iff⟩

/-- A blank level is refused by both. -/
theorem bad_input_answers_400_iff_blankLevel :
    let body := some (startInput " ")
    Answers bareDeps .empty (startSessionHttp bareDeps (some "u") body) .validationError ∧
      Answers bareDeps .empty (mintAccessTokenHttp (some "u") body none) .validationError := by
  intro body
  have unread : ¬ ∃ opts, Reads body opts := by
    rintro ⟨opts, read⟩
    have refused : Kyc.validateStartInput body =
        .error (Errors.validationError "levelName cannot be empty when provided") := by rfl
    cases refused.symm.trans read.validateStartInput
  have readable : ReadableTexts body :=
    ⟨fun _ => Or.inr (Or.inr ⟨" ", rfl⟩), fun _ _ => Or.inl rfl⟩
  obtain ⟨started, minted⟩ := bad_input_answers_400_iff bareDeps .empty (some "u") "u" body rfl
  have condition : ReadableTexts body ∧ AcceptedByProvider bareDeps .empty "u" body :=
    ⟨readable, fun opts read => absurd ⟨opts, read⟩ unread⟩
  exact ⟨(started.mpr condition).rejects.mpr unread, (minted.mpr condition).rejects.mpr unread⟩

/-- A level that is a number is answered as an internal error. -/
theorem numeric_level_answers_internal_error :
    let body := some (.object [("platform", .string "WEB"), ("levelName", .number 7)])
    (¬ ∃ opts, Reads body opts) ∧
      ((startSessionHttp bareDeps (some "u") body).run (exec bareDeps) .empty).1 =
        .ok ⟨.number 500, .error "INTERNAL_ERROR"⟩ ∧
      ((mintAccessTokenHttp (some "u") body none).run (exec bareDeps) .empty).1 =
        .ok ⟨.number 500, .error "INTERNAL_ERROR"⟩ ∧
      ¬ Answers bareDeps .empty (startSessionHttp bareDeps (some "u") body) .validationError ∧
      ¬ Answers bareDeps .empty (mintAccessTokenHttp (some "u") body none) .validationError := by
  intro body
  have refused : Kyc.validateStartInput body =
      .error (plainError "value.trim is not a function") := by rfl
  have started : ((startSessionHttp bareDeps (some "u") body).run (exec bareDeps) .empty).1 =
      .ok ⟨.number 500, .error "INTERNAL_ERROR"⟩ := by rfl
  have minted : ((mintAccessTokenHttp (some "u") body none).run (exec bareDeps) .empty).1 =
      .ok ⟨.number 500, .error "INTERNAL_ERROR"⟩ := by rfl
  refine ⟨?_, started, minted, ?_, ?_⟩
  · rintro ⟨opts, read⟩
    cases refused.symm.trans read.validateStartInput
  · rintro ⟨message, h⟩
    cases (HttpResult.mk.inj (Except.ok.inj (started.symm.trans h))).2
  · rintro ⟨message, h⟩
    cases (HttpResult.mk.inj (Except.ok.inj (minted.symm.trans h))).2

end Kyc.Http
