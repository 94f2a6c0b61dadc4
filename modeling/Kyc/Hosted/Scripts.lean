import Kyc.Hosted.Bridge
import Kyc.Json.Literal

/-! # Values written into scripts

The JSON that pages inline, the call by which a native shell injects a fresh token, and
the message by which a web host posts one. Neither a page nor a host can be broken out
of by what they are given, and each value arrives as it was sent.
-/

namespace Kyc.Hosted

open Json

/-- `s.replace(/c/g, text)`, for a unit without a meaning of its own in patterns. -/
def replaceAll (c : UInt16) (text : Text) (s : Text) : Text :=
  s.flatMap fun d => if d = c then text else [d]

/-- `escapeForScript`, which `jsonForScript` applies, too. -/
def escapeForScript (json : Text) : Text :=
  replaceAll 0x2029 (lit "\\u2029")
    (replaceAll 0x2028 (lit "\\u2028") (replaceAll (unit '<') (lit "\\u003c") json))

def scriptUnits : List UInt16 := [unit '<', 0x2028, 0x2029]

def setTokenArgument (token : Text) : Text := escapeForScript (quote token)

def createSetTokenScript (token : Text) : Text :=
  lit "window.__kycBridge && window.__kycBridge.setToken(" ++ setTokenArgument token ++
    lit ");\ntrue;"

/-- The value that the injected call passes to `setToken`. -/
def runSetTokenScript (script : Text) : Option Text :=
  let before := lit "window.__kycBridge && window.__kycBridge.setToken("
  if before <+: script then
    (evalLiteral (script.drop before.length)).bind fun (value, rest) =>
      if rest = lit ");\ntrue;" then some value else none
  else none

variable {ν : Type}

section Page

variable (N : Numerals ν)

def jsonForScript (value : Value ν) : Text := escapeForScript (stringify N value)

/-- `readToken` of the page; `none` is `null`. -/
def readToken (value : Option (Value ν)) : Option Text :=
  match value with
  | some (.string token) => some token
  | some value => if value.isRecord then str (value.get? "token") else none
  | none => none

variable [Zero ν] [One ν] [DecidableEq ν]

def createSetTokenMessage (token : Text) : Value ν :=
  .object [(lit "source", .string bridgeSource), (lit "v", .number bridgeProtocolVersion),
    (lit "type", .string (lit "setToken")), (lit "token", .string token)]

def messageData : Value ν → Option (Value ν)
  | .string s => parse N s
  | data => some data

/-- What the page's listener passes to `setToken`, if anything, of a message posted to it. -/
def onWindowMessage (hasSetToken : Bool) (data : Value ν) : Option (Value ν) :=
  (messageData N data).bind fun data =>
  if ¬ data.isTruthy ∨ ¬ isEnvelope data then none
  else if str (data.get? "type") = some (lit "setToken") ∧ hasSetToken then some data
  else none

end Page

/-! ## Escapes -/

theorem replaceAll_append (c : UInt16) (text s t : Text) :
    replaceAll c text (s ++ t) = replaceAll c text s ++ replaceAll c text t :=
  List.flatMap_append

theorem replaceAll_eq_self {c : UInt16} {text s : Text} (h : c ∉ s) : replaceAll c text s = s := by
  induction s with
  | nil => rfl
  | cons d s ih =>
    have hd : d ≠ c := fun hd => h (hd ▸ List.mem_cons_self)
    rw [replaceAll, List.flatMap_cons, if_neg hd, ← replaceAll,
      ih fun hs => h (List.mem_cons_of_mem d hs)]
    rfl

theorem escapeForScript_eq_shield (json : Text) :
    escapeForScript json = shield scriptUnits json := by
  induction json with
  | nil => rfl
  | cons c json ih =>
    have unit_by_unit : escapeForScript [c] = shield scriptUnits [c] := by
      by_cases hc : c ∈ scriptUnits
      · simp only [scriptUnits, List.mem_cons, List.not_mem_nil, or_false] at hc
        rcases hc with rfl | rfl | rfl <;> decide
      · have hself : ∀ d ∈ scriptUnits, d ∉ [c] := by
          intro d hd hdc
          exact hc (List.mem_singleton.mp hdc ▸ hd)
        rw [escapeForScript, replaceAll_eq_self (hself _ (by decide)),
          replaceAll_eq_self (hself _ (by decide)), replaceAll_eq_self (hself _ (by decide)),
          shield_cons_of_not_mem hc]
        rfl
    have split (s t : Text) :
        escapeForScript (s ++ t) = escapeForScript s ++ escapeForScript t := by
      simp only [escapeForScript, replaceAll_append]
    rw [← List.singleton_append, split, shield_append, unit_by_unit, ih]

theorem ordinary_scriptUnits : ∀ c ∈ scriptUnits, Ordinary c := by decide

theorem not_mem_escapeForScript {c : UInt16} (hc : c ∈ scriptUnits) (json : Text) :
    c ∉ escapeForScript json := by
  rw [escapeForScript_eq_shield]
  exact not_mem_shield ordinary_scriptUnits hc json

theorem parse_jsonForScript {N : Numerals ν} {v : Value ν} (hv : v.Numeric N) :
    parse N (jsonForScript N v) = parse N (stringify N v) := by
  rw [jsonForScript, escapeForScript_eq_shield, parse_stringify_numeric hv]
  exact parse_shield ordinary_scriptUnits (parse_stringify_numeric hv)

theorem runSetTokenScript_createSetTokenScript (token : Text) :
    runSetTokenScript (createSetTokenScript token) = some token := by
  have read : evalLiteral (setTokenArgument token ++ lit ");\ntrue;") =
      some (token, lit ");\ntrue;") := by
    rw [setTokenArgument, escapeForScript_eq_shield]
    exact evalLiteral_shield_quote ordinary_scriptUnits (by decide) token (by decide)
  rw [runSetTokenScript, createSetTokenScript, List.append_assoc, if_pos (List.prefix_append _ _),
    List.drop_left, read, Option.bind_some]
  exact if_pos rfl

/-! ## The page -/

section Page

variable {N : Numerals ν} [Zero ν] [One ν] [DecidableEq ν]

omit [Zero ν] in
theorem isEnvelope_createSetTokenMessage (token : Text) :
    isEnvelope (createSetTokenMessage token : Value ν) = true :=
  decide_eq_true ⟨rfl, rfl⟩

theorem onWindowMessage_createSetTokenMessage (token : Text) :
    onWindowMessage N true (createSetTokenMessage token) = some (createSetTokenMessage token) := by
  have truthy : (createSetTokenMessage token : Value ν).isTruthy = true := rfl
  have envelope := isEnvelope_createSetTokenMessage (ν := ν) token
  have type : str ((createSetTokenMessage token : Value ν).get? "type") = some (lit "setToken") :=
    rfl
  have data : messageData N (createSetTokenMessage token) = some (createSetTokenMessage token) :=
    rfl
  rw [onWindowMessage, data, Option.bind_some, truthy, envelope, type]
  simp

end Page

/-- What is written into a script contains nothing that ends it and is read back: any JSON value
that a page inlines, and any token, which the page reads off the injected call and off the posted
message. -/
theorem embedded_values_survive (N : Numerals ν) [Zero ν] [One ν] [DecidableEq ν] {v : Value ν}
    (hv : v.Numeric N) (token : Text) :
    (∀ c ∈ scriptUnits, c ∉ jsonForScript N v) ∧
      parse N (jsonForScript N v) = parse N (stringify N v) ∧
      parse N (stringify N v) = some (v.reread N) ∧
      (∀ c ∈ scriptUnits, c ∉ setTokenArgument token) ∧
      runSetTokenScript (createSetTokenScript token) = some token ∧
      readToken (some (.string token : Value ν)) = some token ∧
      (onWindowMessage N true (createSetTokenMessage token)).map (readToken ∘ some) =
        some (some token) := by
  refine ⟨fun c hc => not_mem_escapeForScript hc _, parse_jsonForScript hv,
    parse_stringify_numeric hv, fun c hc => not_mem_escapeForScript hc _,
    runSetTokenScript_createSetTokenScript token, rfl, ?_⟩
  rw [onWindowMessage_createSetTokenMessage]
  rfl

def closingTag : Value ℕ :=
  .object [(lit "html", .string (lit "</script>")), (lit "n", .array [.number 7])]

theorem embedded_values_survive_closingTag :
    parse decimal (jsonForScript decimal closingTag) = some closingTag := by
  have numeric : closingTag.Numeric decimal := by
    apply Value.Numeric.object (by decide)
    simp only [List.mem_cons, List.not_mem_nil, or_false]
    rintro field (rfl | rfl)
    · exact .string _
    · apply Value.Numeric.array
      simp only [List.mem_singleton]
      rintro v rfl
      exact .number (by decide)
  have survives := embedded_values_survive decimal numeric (lit "</script>")
  rw [survives.2.1, survives.2.2.1]
  rfl

end Kyc.Hosted
