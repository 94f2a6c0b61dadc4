import Kyc.Store.Writes

/-! # One user's part of the store

The sessions of a user and the audit entries about them, and the rest. The lookups made
for the user answer from this part alone, and writing on it leaves the rest alone.
-/

namespace Kyc

namespace Tables

variable (t : Tables) (userId : String)

def owns (id : String) : Bool := (t.sessions.get id).any (·.userId = userId)

def only : Tables :=
  ⟨t.sessions.filter (·.userId = userId), t.audit.filter fun e => t.owns userId e.sessionId⟩

def others : List SessionRecord × List AuditEntry :=
  (t.sessions.rows.filter (·.userId ≠ userId), t.audit.filter fun e => ¬ t.owns userId e.sessionId)

variable {t userId} {id : String} {r s : SessionRecord} {e : AuditEntry}

theorem owns_iff : t.owns userId id ↔ ∃ r, t.sessions.get id = some r ∧ r.userId = userId := by
  simp [owns, Option.any_eq_true]

theorem get_only : (t.only userId).sessions.get id =
    (t.sessions.get id).filter (·.userId = userId) :=
  Table.get_filter ..

theorem get_only_of_owned (h : t.sessions.get id = some r) (hu : r.userId = userId) :
    (t.only userId).sessions.get id = some r := by
  rw [get_only, h, Option.filter_some, if_pos (decide_eq_true hu)]

theorem owns_setSession (hu : r.userId = userId) :
    (t.setSession r).owns userId id = (decide (id = r.id) || t.owns userId id) := by
  rw [owns, sessions_setSession, Table.get_set]
  by_cases hid : id = r.id
  · rw [if_pos hid, decide_eq_true hid]
    simp [hu]
  · rw [if_neg hid, decide_eq_false hid, owns, Bool.false_or]

section Set

/-- What makes writing a row the user's own affair. -/
structure Mine (t : Tables) (userId : String) (r : SessionRecord) : Prop where
  user : r.userId = userId
  old : ∀ s, t.sessions.get r.id = some s → s.userId = userId
  new : t.sessions.get r.id = none → ∀ e ∈ t.audit, e.sessionId ≠ r.id

variable (hm : t.Mine userId r)

include hm

theorem Mine.owns_eq (he : e ∈ t.audit) :
    (t.setSession r).owns userId e.sessionId = t.owns userId e.sessionId := by
  rw [owns_setSession hm.user]
  by_cases hid : e.sessionId = r.id
  · cases hg : t.sessions.get r.id with
    | none => exact absurd hid (hm.new hg e he)
    | some s =>
      have ho : t.owns userId e.sessionId := owns_iff.mpr ⟨s, hid ▸ hg, hm.old s hg⟩
      rw [ho, Bool.or_true]
  · rw [decide_eq_false hid, Bool.false_or]

theorem Mine.only_setSession :
    (t.setSession r).only userId = (t.only userId).setSession r := by
  have hs : (t.sessions.set r).filter (·.userId = userId) =
      (t.sessions.filter (·.userId = userId)).set r :=
    Table.filter_set (decide_eq_true hm.user) fun old ho => decide_eq_true (hm.old old ho)
  have ha : t.audit.filter (fun e => (t.setSession r).owns userId e.sessionId) =
      t.audit.filter fun e => t.owns userId e.sessionId :=
    List.filter_congr fun e he => hm.owns_eq he
  exact Tables.ext hs ha

theorem Mine.others_setSession : (t.setSession r).others userId = t.others userId := by
  have hs : (t.sessions.set r).rows.filter (·.userId ≠ userId) =
      t.sessions.rows.filter (·.userId ≠ userId) :=
    Table.rows_filter_set_of_not (by simp [hm.user]) fun old ho => by simp [hm.old old ho]
  have ha : t.audit.filter (fun e => ¬ (t.setSession r).owns userId e.sessionId) =
      t.audit.filter fun e => ¬ t.owns userId e.sessionId :=
    List.filter_congr fun e he => by rw [hm.owns_eq he]
  exact Prod.ext hs ha

end Set

theorem only_addAudit (h : t.owns userId e.sessionId) :
    (t.addAudit e).only userId = (t.only userId).addAudit e := by
  refine Tables.ext rfl ?_
  change (t.audit ++ [e]).filter (fun e => t.owns userId e.sessionId) =
    t.audit.filter (fun e => t.owns userId e.sessionId) ++ [e]
  rw [List.filter_append, List.filter_cons, if_pos h, List.filter_nil]

theorem others_addAudit (h : t.owns userId e.sessionId) :
    (t.addAudit e).others userId = t.others userId := by
  have ha : (t.audit ++ [e]).filter (fun e => ¬ t.owns userId e.sessionId) =
      t.audit.filter fun e => ¬ t.owns userId e.sessionId := by
    rw [List.filter_append, List.filter_cons, if_neg (by simp [h]), List.filter_nil,
      List.append_nil]
  exact Prod.ext rfl ha

end Tables

namespace MemoryStore

variable {t : Tables} {userId : String}

theorem getSessionByIdForUser_only (id : String) :
    getSessionByIdForUser (t.only userId) id userId = getSessionByIdForUser t id userId := by
  unfold getSessionByIdForUser
  rw [Tables.get_only]
  cases t.sessions.get id with
  | none => rfl
  | some r =>
    rw [Option.filter_some]
    by_cases hu : r.userId = userId
    · rw [if_pos (decide_eq_true hu)]
    · rw [if_neg (by simp [hu])]
      simp [hu]

theorem getLatestSessionForUser_only (provider : String) :
    getLatestSessionForUser (t.only userId) userId provider =
      getLatestSessionForUser t userId provider := by
  have hf : (t.sessions.rows.filter (·.userId = userId)).filter (·.ofUser userId provider) =
      t.sessions.rows.filter (·.ofUser userId provider) := by
    rw [List.filter_filter]
    apply List.filter_congr
    intro r _
    by_cases hu : r.userId = userId <;> simp [SessionRecord.ofUser, hu]
  exact congrArg (fun rows => (newestFirst SessionRecord.createdAt rows).head?) hf

end MemoryStore

end Kyc
