import Kyc.Json.Coercion
import Kyc.Tables.Keyed

/-! # Labels

The copy of the built-in screens: the defaults of a platform, the label for the title and
the start button, and what the host overrides. The copy for an error is looked up by its code
in a plain object, which also has what every object inherits.
-/

namespace Kyc.Client

open Json

abbrev Properties (α : Type) := Table (Prod.fst : Text × α → Text)

def proto : Text := lit "__proto__"

/-- `o[name] = text`: a text is no prototype. -/
def assign (o : Properties Text) (name text : Text) : Properties Text :=
  if name = proto then o else o.set (name, text)

/-- The value of a property: a text, or what every object inherits under a name. -/
inductive Property
  | text (t : Text)
  | inherited (name : Text)
  deriving DecidableEq

/-- `o[name]`. -/
def propertyOf (o : Properties Text) (name : Text) : Option Property :=
  match o.get name with
  | some row => some (.text row.2)
  | none => if inherits name then some (.inherited name) else none

/-- Assign the texts of an object that are neither `null` nor `undefined`. -/
def assignTexts (o : Properties Text) (entries : List (Text × Option Text)) : Properties Text :=
  entries.foldl (fun o entry => (entry.2.map (assign o entry.1)).getD o) o

structure IdentityVerificationLabels where
  errorMessages : Option (Properties (Option Text))
  flat : Properties (Option Text)

structure ResolvedLabels where
  flat : Properties Text
  errorMessages : Properties Text

def resolveLabelsWith (defaults : Properties Text) (label : Text)
    (labels : Option IdentityVerificationLabels) : ResolvedLabels where
  flat := assignTexts ((defaults.set (lit "title", label)).set (lit "start", label))
    (labels.elim [] (·.flat.rows))
  errorMessages := assignTexts .empty ((labels.bind (·.errorMessages)).elim [] (·.rows))

structure Failure where
  code : Text
  message : Text

/-- `labels.errorMessages[failure.code] ?? failure.message`. -/
def failureLabel (labels : ResolvedLabels) (failure : Failure) : Property :=
  (propertyOf labels.errorMessages failure.code).getD (.text failure.message)

section Texts

theorem get_assign (o : Properties Text) (name text other : Text) :
    (assign o name text).get other =
      if other = name ∧ other ≠ proto then some (name, text) else o.get other := by
  rw [assign]
  by_cases hname : name = proto
  · rw [if_pos hname, if_neg]
    rintro ⟨rfl, h⟩
    exact h hname
  · rw [if_neg hname, Table.get_set]
    by_cases hother : other = name
    · rw [if_pos hother, if_pos ⟨hother, hother ▸ hname⟩]
    · rw [if_neg hother, if_neg fun h => hother h.1]

def textOf (o : Properties (Option Text)) (name : Text) : Option Text := (o.get name).bind Prod.snd

theorem textOf_cons {code : Text} {text : Option Text} {rows : List (Text × Option Text)}
    (h : (((code, text) :: rows).map Prod.fst).Nodup) (name : Text) :
    textOf ⟨(code, text) :: rows, h⟩ name =
      if code = name then text else textOf ⟨rows, (List.nodup_cons.mp h).2⟩ name := by
  rw [textOf, textOf, Table.get, Table.get, List.find?_cons]
  by_cases hcode : code = name <;> simp [hcode]

/-- A text takes the place of another under its name, unless that is the one of the prototype. -/
theorem get_assignTexts (o : Properties Text) (entries : Properties (Option Text)) (name : Text) :
    (assignTexts o entries.rows).get name =
      if name ≠ proto ∧ (textOf entries name).isSome then (textOf entries name).map (name, ·)
      else o.get name := by
  obtain ⟨rows, nodup⟩ := entries
  induction rows generalizing o with
  | nil => exact (if_neg fun h => Bool.false_ne_true h.2).symm
  | cons entry rows ih =>
    obtain ⟨code, text⟩ := entry
    obtain ⟨fresh, nodup'⟩ := List.nodup_cons.mp nodup
    rw [textOf_cons, assignTexts, List.foldl_cons, ← assignTexts, ih _ nodup']
    by_cases hcode : code = name
    · subst hcode
      have none_behind : textOf ⟨rows, nodup'⟩ code = none := by
        have absent : Table.get (⟨rows, nodup'⟩ : Properties (Option Text)) code = none :=
          Table.get_eq_none.mpr fun row hrow heq => fresh (List.mem_map.mpr ⟨row, hrow, heq⟩)
        rw [textOf, absent]
        rfl
      rw [if_pos rfl, none_behind, if_neg (by simp)]
      cases text with
      | none => simp
      | some text => simp [get_assign]
    · have kept : ((text.map (assign o code)).getD o).get name = o.get name := by
        cases text with
        | none => rfl
        | some text => exact (get_assign o code text name).trans (if_neg fun h => hcode h.1.symm)
      rw [if_neg hcode, kept]

end Texts

def hostText (labels : Option IdentityVerificationLabels) (code : Text) : Option Text :=
  (labels.bind (·.errorMessages)).bind (textOf · code)

theorem propertyOf_errorMessages (defaults : Properties Text) (label : Text)
    (labels : Option IdentityVerificationLabels) (code : Text) :
    propertyOf (resolveLabelsWith defaults label labels).errorMessages code =
      if code ≠ proto ∧ (hostText labels code).isSome then (hostText labels code).map .text
      else if inherits code then some (.inherited code) else none := by
  have table : (resolveLabelsWith defaults label labels).errorMessages.get code =
      if code ≠ proto ∧ (hostText labels code).isSome then (hostText labels code).map (code, ·)
      else none := by
    rw [resolveLabelsWith, hostText]
    cases labels.bind (·.errorMessages) with
    | none => exact (if_neg fun h => by cases h.2).symm
    | some entries => exact get_assignTexts .empty entries code
  rw [propertyOf, table]
  by_cases host : code ≠ proto ∧ (hostText labels code).isSome
  · obtain ⟨text, htext⟩ := Option.isSome_iff_exists.mp host.2
    rw [if_pos host, if_pos host, htext]
    rfl
  · rw [if_neg host, if_neg host]

/-- An error is shown with the text of the host or its own message exactly if its code is no name
that every object inherits, or one under which the host could and did set a text. -/
theorem failureLabel_iff (defaults : Properties Text) (label : Text)
    (labels : Option IdentityVerificationLabels) (failure : Failure) :
    failureLabel (resolveLabelsWith defaults label labels) failure =
        .text ((hostText labels failure.code).getD failure.message) ↔
      inherits failure.code = false ∨
        failure.code ≠ proto ∧ (hostText labels failure.code).isSome := by
  rw [failureLabel, propertyOf_errorMessages]
  split_ifs with host inherited
  · obtain ⟨text, htext⟩ := Option.isSome_iff_exists.mp host.2
    exact iff_of_true (by rw [htext]; rfl) (Or.inr host)
  · refine iff_of_false (fun h => by cases h) ?_
    rintro (h | h)
    · exact Bool.false_ne_true (h.symm.trans inherited)
    · exact host h
  · have plain : inherits failure.code = false := Bool.eq_false_iff.mpr inherited
    have none_set : hostText labels failure.code = none := by
      by_contra hset
      refine host ⟨?_, Option.isSome_iff_ne_none.mpr hset⟩
      intro hproto
      rw [hproto] at inherited
      exact inherited (by decide)
    exact iff_of_true (by rw [none_set]; rfl) (Or.inl plain)

/-- A code that every object has a property for is shown as that. -/
theorem not_text_of_constructor :
    failureLabel (resolveLabelsWith .empty (lit "Verify") none)
        ⟨lit "constructor", lit "Verification failed"⟩ ≠ .text (lit "Verification failed") := by
  decide

end Kyc.Client
