import Kyc.Http.Handlers
import Mathlib.Data.List.Induction

/-! # Fetch messages

Requests and responses of the Fetch API, as far as the service looks at them, and the two
ways in which it adds headers to a response: over those that are there, or only where there
are none.
-/

namespace Kyc.Server

open Http Json

/-- The headers of a message, by name in lower case. -/
abbrev Headers := String → Option String

/-- The own entries of a record of headers, in order. -/
abbrev HeaderRecord := List (String × String)

namespace Headers

def has (headers : Headers) (name : String) : Bool := (headers name).isSome

def set (headers : Headers) (name value : String) : Headers :=
  Function.update headers name (some value)

/-- `new Headers(record)`, or each entry of the record set over what is there. -/
def setAll (headers : Headers) (record : HeaderRecord) : Headers :=
  record.foldl (fun headers entry => headers.set entry.1 entry.2) headers

/-- Each entry of the record set, unless its name is there. -/
def setMissing (headers : Headers) (record : HeaderRecord) : Headers :=
  record.foldl
    (fun headers entry => if headers.has entry.1 then headers else headers.set entry.1 entry.2)
    headers

def ofRecord (record : HeaderRecord) : Headers := setAll (fun _ => none) record

end Headers

structure Request where
  method : String
  /-- `new URL(request.url).pathname`. -/
  pathname : String
  /-- `new URL(request.url).search`. -/
  search : String
  headers : Headers
  body : Text

structure Response (β : Type) where
  status : ℕ
  headers : Headers
  body : β

section Records

variable {headers : Headers} {record : HeaderRecord} {name value : String}

theorem Headers.set_apply (headers : Headers) (name value name' : String) :
    headers.set name value name' = if name' = name then some value else headers name' :=
  Function.update_apply headers name (some value) name'

theorem Headers.setAll_apply (headers : Headers) (record : HeaderRecord) (name : String) :
    headers.setAll record name = (record.reverse.lookup name).or (headers name) := by
  induction record using List.reverseRecOn with
  | nil => rfl
  | append_singleton record entry ih =>
    have last : headers.setAll (record ++ [entry]) = (headers.setAll record).set entry.1 entry.2 :=
      List.foldl_concat ..
    rw [last, Headers.set_apply, List.reverse_concat, List.lookup_cons]
    by_cases h : name = entry.1
    · rw [if_pos h, h, beq_self_eq_true]
      rfl
    · rw [if_neg h, ih, beq_false_of_ne h]

theorem Headers.setMissing_apply (headers : Headers) (record : HeaderRecord) (name : String) :
    headers.setMissing record name = (headers name).or (record.lookup name) := by
  induction record generalizing headers with
  | nil => simp [setMissing]
  | cons entry record ih =>
    have first : headers.setMissing (entry :: record) =
        (if headers.has entry.1 then headers else headers.set entry.1 entry.2).setMissing
          record := rfl
    rw [first, ih, List.lookup_cons]
    by_cases h : name = entry.1
    · subst h
      rw [beq_self_eq_true]
      cases hv : headers entry.1 with
      | some v => simp [has, hv]
      | none => simp [has, hv, Headers.set_apply]
    · rw [beq_false_of_ne h]
      split
      · rfl
      · rw [Headers.set_apply, if_neg h]

theorem Headers.ofRecord_apply (record : HeaderRecord) (name : String) :
    ofRecord record name = record.reverse.lookup name := by
  rw [ofRecord, setAll_apply, Option.or_none]

end Records

section Responses

variable {β : Type}

def withDefaults (response : Response β) (headers : HeaderRecord) : Response β :=
  { response with headers := response.headers.setMissing headers }

def withHeaders (response : Response β) (headers : HeaderRecord) : Response β :=
  { response with headers := response.headers.setAll headers }

@[simp] theorem status_withDefaults (response : Response β) (headers : HeaderRecord) :
    (withDefaults response headers).status = response.status := rfl

@[simp] theorem status_withHeaders (response : Response β) (headers : HeaderRecord) :
    (withHeaders response headers).status = response.status := rfl

@[simp] theorem body_withDefaults (response : Response β) (headers : HeaderRecord) :
    (withDefaults response headers).body = response.body := rfl

@[simp] theorem body_withHeaders (response : Response β) (headers : HeaderRecord) :
    (withHeaders response headers).body = response.body := rfl

@[simp] theorem headers_withDefaults (response : Response β) (headers : HeaderRecord)
    (name : String) : (withDefaults response headers).headers name =
      (response.headers name).or (headers.lookup name) :=
  Headers.setMissing_apply response.headers headers name

@[simp] theorem headers_withHeaders (response : Response β) (headers : HeaderRecord)
    (name : String) : (withHeaders response headers).headers name =
      (headers.reverse.lookup name).or (response.headers name) :=
  Headers.setAll_apply response.headers headers name

end Responses

end Kyc.Server
