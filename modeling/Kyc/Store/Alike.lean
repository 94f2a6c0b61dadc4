import Kyc.Store.Writes

/-! # Tables up to their update times

Two tables are alike when they differ in nothing but the times at which rows were
last updated. No lookup reads these times, so alike tables are looked up alike.
-/

namespace Kyc

def SessionRecord.untimed (r : SessionRecord) : SessionRecord := { r with updatedAt := 0 }

namespace SessionRecord

variable {r s : SessionRecord}

theorem untimed_eq_iff : r.untimed = s.untimed ↔
    r.identity = s.identity ∧ r.standing = s.standing := by
  constructor
  · intro h
    have hi : r.untimed.identity = s.untimed.identity := congrArg identity h
    have hs : r.untimed.standing = s.untimed.standing := congrArg standing h
    exact ⟨hi, hs⟩
  · rintro ⟨hi, hs⟩
    cases r; cases s
    simp_all [identity, standing, untimed]

theorem levelName_of_untimed (h : r.untimed = s.untimed) : r.levelName = s.levelName :=
  levelName_of_identity (untimed_eq_iff.mp h).1

end SessionRecord

/-- The same sessions in the same order, up to their update times. -/
def Tables.Alike (t t' : Tables) : Prop :=
  t.sessions.rows.map SessionRecord.untimed = t'.sessions.rows.map SessionRecord.untimed

namespace Tables

variable {t t' t'' : Tables} {r r' s s' : SessionRecord}

theorem Alike.refl (t : Tables) : t.Alike t := rfl

theorem Alike.trans (h : t.Alike t') (h' : t'.Alike t'') : t.Alike t'' := Eq.trans h h'

theorem alike_of_sessions (h : t.sessions = t'.sessions) : t.Alike t' := by
  rw [Alike, h]

theorem find?_untimed (rows : List SessionRecord) (id : String) :
    (rows.map SessionRecord.untimed).find? (·.id = id) =
      (rows.find? (·.id = id)).map SessionRecord.untimed := by
  rw [List.find?_map]
  rfl

theorem Alike.get (h : t.Alike t') (id : String) :
    (t.sessions.get id).map SessionRecord.untimed =
      (t'.sessions.get id).map SessionRecord.untimed := by
  rw [Table.get, Table.get, ← find?_untimed, ← find?_untimed, h]

theorem Alike.standing_eq (h : t.Alike t') (id : String) : t.standing id = t'.standing id := by
  have hs : ∀ o : Option SessionRecord,
      o.map SessionRecord.standing = (o.map SessionRecord.untimed).map SessionRecord.standing := by
    intro o
    cases o <;> rfl
  rw [Tables.standing, Tables.standing, hs (t.sessions.get id), hs (t'.sessions.get id), h.get id]

theorem Alike.newest (h : t.Alike t') {p : SessionRecord → Bool}
    (hp : ∀ r, p r.untimed = p r) :
    (newestSession p t.sessions.rows).map SessionRecord.untimed =
      (newestSession p t'.sessions.rows).map SessionRecord.untimed := by
  have hn : ∀ rows : List SessionRecord, (newestSession p rows).map SessionRecord.untimed =
      newestSession p (rows.map SessionRecord.untimed) := by
    intro rows
    have hm : newestSession p (rows.map SessionRecord.untimed) =
        (newestSession (fun r => p r.untimed) rows).map SessionRecord.untimed :=
      newest_map (f := SessionRecord.untimed) (fun _ _ => rfl) p
    have hc : newestSession (fun r => p r.untimed) rows = newestSession p rows :=
      newest_congr fun r _ => hp r
    rw [hm, hc]
  rw [hn, hn, h]

theorem Alike.set {u u' : Tables} (h : t.Alike t') (hr : t.sessions.get r.id = some s)
    (hr' : t'.sessions.get r'.id = some s') (hrr : r.untimed = r'.untimed)
    (hu : u.sessions = t.sessions.set r) (hu' : u'.sessions = t'.sessions.set r') :
    u.Alike u' := by
  have hmap : ∀ (q : SessionRecord) (rows : List SessionRecord),
      (Table.replace SessionRecord.id q rows).map SessionRecord.untimed =
        Table.replace SessionRecord.id q.untimed (rows.map SessionRecord.untimed) := by
    intro q rows
    rw [Table.replace, Table.replace, List.map_map, List.map_map]
    apply List.map_congr_left
    intro x _
    have hx : x.untimed.id = x.id := rfl
    have hq : q.untimed.id = q.id := rfl
    simp only [Function.comp_apply, hx, hq]
    split <;> rfl
  rw [Alike, hu, hu', Table.rows_set_old hr, Table.rows_set_old hr', hmap, hmap, hrr, h]

end Tables

end Kyc
