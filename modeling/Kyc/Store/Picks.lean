import Kyc.Store.Knex
import Kyc.Tables.Arrays

/-! # Which session an event is about

The three tiers of `pickSessionForApplicant`: the newest record on the event's level,
else the newest still in progress, else the newest. The rule sorts a copy, so the
caller's array stays as it is, and records of different times are picked alike in
whatever order they come.
-/

namespace Kyc

/-- `pickSessionForApplicant` on an array that the caller keeps. -/
def pickSessionForApplicantIn (arrays : Arrays SessionRecord) (records : ℕ)
    (levelName : Option String) : Option SessionRecord × Arrays SessionRecord :=
  let (newestFirst, arrays) := arrays.spread records
  let arrays := arrays.sort (fun a b => b.createdAt ≤ a.createdAt) newestFirst
  let onLevel := match truthy levelName with
    | some level => (arrays.read newestFirst).find? fun (record : SessionRecord) =>
        record.levelName = some level
    | none => none
  let inProgress := (arrays.read newestFirst).find? fun (record : SessionRecord) =>
    ¬ record.status.Terminal
  ((onLevel.or inProgress).or (arrays.read newestFirst).head?, arrays)

/-- Some record is on the level that the event names. -/
def OnEventLevel (records : List SessionRecord) (levelName : Option String) : Prop :=
  ∃ level, level ≠ "" ∧ levelName = some level ∧ ∃ s ∈ records, s.levelName = some level

/-- The record has the property, and no record that has it is newer. -/
def NewestWith (p : SessionRecord → Prop) (records : List SessionRecord) (r : SessionRecord) :
    Prop :=
  p r ∧ ∀ s ∈ records, p s → s.createdAt ≤ r.createdAt

/-- What a pick owes to the records and to the level of the event. -/
structure MeetsTiers (records : List SessionRecord) (levelName : Option String)
    (picked : Option SessionRecord) : Prop where
  none_iff : picked = none ↔ records = []
  mem : ∀ r ∈ picked, r ∈ records
  onLevel : ∀ r ∈ picked, ∀ level, level ≠ "" → levelName = some level →
    (∃ s ∈ records, s.levelName = some level) →
    NewestWith (fun s => s.levelName = some level) records r
  inProgress : ∀ r ∈ picked, ¬ OnEventLevel records levelName →
    (∃ s ∈ records, ¬ s.status.Terminal) → NewestWith (fun s => ¬ s.status.Terminal) records r
  newest : ∀ r ∈ picked, ¬ OnEventLevel records levelName →
    (∀ s ∈ records, s.status.Terminal) → NewestWith (fun _ => True) records r

section Tiers

variable {records records' : List SessionRecord} {levelName : Option String}

theorem pickSessionForApplicantIn_fst (arrays : Arrays SessionRecord) (a : ℕ)
    (levelName : Option String) :
    (pickSessionForApplicantIn arrays a levelName).1 =
      pickSessionForApplicant (arrays.read a) levelName := by
  unfold pickSessionForApplicantIn pickSessionForApplicant
  simp only [Arrays.read_sort_spread]
  rfl

theorem pickSessionForApplicantIn_spares (arrays : Arrays SessionRecord) (a : ℕ)
    (levelName : Option String) :
    arrays.Spares (pickSessionForApplicantIn arrays a levelName).2 :=
  Arrays.spares_sort_spread a

theorem newestWith_of_newest {p : SessionRecord → Prop} [DecidablePred p] {r : SessionRecord}
    (h : newestSession (fun s => decide (p s)) records = some r) : NewestWith p records r := by
  constructor
  · simpa using newest_prop h
  · intro s hs hp
    exact newest_latest h hs (by simpa using hp)

def newestOnLevel (records : List SessionRecord) (levelName : Option String) :
    Option SessionRecord :=
  (truthy levelName).bind fun level => newestSession (fun s => s.levelName = some level) records

theorem pickSessionForApplicant_eq (records : List SessionRecord) (levelName : Option String) :
    pickSessionForApplicant records levelName =
      ((newestOnLevel records levelName).or
        (newestSession (fun s => ¬ s.status.Terminal) records)).or
      (newestSession (fun _ => True) records) := by
  have hfirst : newestSession (fun _ => True) records =
      (newestFirst SessionRecord.createdAt records).head? := by
    rw [newestSession, ← head?_newestFirst_filter]
    simp
  rw [hfirst]
  unfold pickSessionForApplicant newestOnLevel
  cases truthy levelName <;> rfl

theorem newestOnLevel_eq_none : newestOnLevel records levelName = none ↔
    ¬ OnEventLevel records levelName := by
  simp only [newestOnLevel, OnEventLevel, Option.bind_eq_none_iff, truthy_eq_some, newest_eq_none,
    decide_eq_false_iff_not]
  constructor
  · rintro h ⟨level, hne, hl, s, hs, hsl⟩
    exact h level ⟨hl, hne⟩ s hs hsl
  · rintro h level ⟨hl, hne⟩ s hs hsl
    exact h ⟨level, hne, hl, s, hs, hsl⟩

theorem newestOnLevel_of_some {level : String} (hne : level ≠ "")
    (h : levelName = some level) :
    newestOnLevel records levelName =
      newestSession (fun s => s.levelName = some level) records := by
  rw [newestOnLevel, truthy_eq_some.mpr ⟨h, hne⟩]
  rfl

theorem pickSessionForApplicant_of_onLevel {r : SessionRecord}
    (h : newestOnLevel records levelName = some r) :
    pickSessionForApplicant records levelName = some r := by
  rw [pickSessionForApplicant_eq, h]
  rfl

theorem pickSessionForApplicant_of_inProgress {r : SessionRecord}
    (h : ¬ OnEventLevel records levelName)
    (hr : newestSession (fun s => ¬ s.status.Terminal) records = some r) :
    pickSessionForApplicant records levelName = some r := by
  rw [pickSessionForApplicant_eq, newestOnLevel_eq_none.mpr h, hr]
  rfl

theorem pickSessionForApplicant_of_terminal (h : ¬ OnEventLevel records levelName)
    (ht : ∀ s ∈ records, s.status.Terminal) :
    pickSessionForApplicant records levelName = newestSession (fun _ => True) records := by
  have hnone : newestSession (fun s => ¬ s.status.Terminal) records = none :=
    newest_eq_none.mpr fun s hs => by simpa using ht s hs
  rw [pickSessionForApplicant_eq, newestOnLevel_eq_none.mpr h, hnone]
  rfl

theorem exists_newestSession {p : SessionRecord → Prop} [DecidablePred p]
    (h : ∃ s ∈ records, p s) : ∃ r, newestSession (fun s => decide (p s)) records = some r := by
  obtain ⟨s, hs, hp⟩ := h
  exact newest_isSome SessionRecord.createdAt hs (decide_eq_true hp)

/-- The pick is the newest record of the first tier that has any. -/
theorem pickSessionForApplicant_meetsTiers (records : List SessionRecord)
    (levelName : Option String) :
    MeetsTiers records levelName (pickSessionForApplicant records levelName) where
  none_iff := by
    rw [pickSessionForApplicant_eq, Option.or_eq_none_iff]
    constructor
    · rintro ⟨-, h⟩
      apply List.eq_nil_iff_forall_not_mem.mpr
      intro s hs
      simpa using newest_eq_none.mp h s hs
    · rintro rfl
      rw [Option.or_eq_none_iff]
      refine ⟨⟨newestOnLevel_eq_none.mpr ?_, rfl⟩, rfl⟩
      rintro ⟨level, -, -, s, hs, -⟩
      cases hs
  mem := by
    intro r hr
    rw [pickSessionForApplicant_eq, Option.mem_def] at hr
    rcases Option.or_eq_some_iff.mp hr with hr | ⟨-, hr⟩
    · rcases Option.or_eq_some_iff.mp hr with hr | ⟨-, hr⟩
      · obtain ⟨level, -, hr⟩ := Option.bind_eq_some_iff.mp hr
        exact newest_mem hr
      · exact newest_mem hr
    · exact newest_mem hr
  onLevel := by
    intro r hr level hne hl h
    obtain ⟨s, hs⟩ := exists_newestSession h
    have hp := pickSessionForApplicant_of_onLevel ((newestOnLevel_of_some hne hl).trans hs)
    obtain rfl : s = r := Option.some.inj (hp.symm.trans hr)
    exact newestWith_of_newest hs
  inProgress := by
    intro r hr hl h
    obtain ⟨s, hs⟩ := exists_newestSession h
    have hp := pickSessionForApplicant_of_inProgress hl hs
    obtain rfl : s = r := Option.some.inj (hp.symm.trans hr)
    exact newestWith_of_newest hs
  newest := by
    intro r hr hl ht
    rw [pickSessionForApplicant_of_terminal hl ht, Option.mem_def] at hr
    exact newestWith_of_newest hr

theorem pickSessionForApplicant_perm (hp : records'.Perm records)
    (hd : (records.map SessionRecord.createdAt).Nodup) (levelName : Option String) :
    pickSessionForApplicant records' levelName = pickSessionForApplicant records levelName := by
  apply pickSessionForApplicant_congr
  apply newestFirst_perm hp
  intro a ha b hb h
  exact List.inj_on_of_nodup_map hd ha hb h

theorem getSessionByProviderApplicantId_alike (server : Server Thrown) {t : Tables} {db : Database}
    (hp : db.sessions.rows.Perm t.sessions.rows) {applicantId : String}
    (hd : ((t.sessions.rows.filter (·.boundTo applicantId)).map SessionRecord.createdAt).Nodup)
    (options : ApplicantLookupOptions) :
    (KnexStore.getSessionByProviderApplicantId server db applicantId options).1 =
      MemoryStore.getSessionByProviderApplicantId t applicantId options := by
  apply pickSessionForApplicant_perm _ hd
  have hvisit := (Table.visit_perm server db.statements db.sessions).trans hp
  exact (List.perm_insertionSort _ _).trans (hvisit.filter _)

end Tiers

/-- The pick keeps to its tiers and to a copy of the caller's array; records of different times are
picked alike in every order, and so by both stores. -/
theorem pickSessionForApplicant_keeps_to_tiers (arrays : Arrays SessionRecord) (a : ℕ)
    (levelName : Option String) :
    MeetsTiers (arrays.read a) levelName (pickSessionForApplicantIn arrays a levelName).1 ∧
      arrays.Spares (pickSessionForApplicantIn arrays a levelName).2 ∧
      (((arrays.read a).map SessionRecord.createdAt).Nodup →
        ∀ (arrays' : Arrays SessionRecord) (b : ℕ), (arrays'.read b).Perm (arrays.read a) →
          (pickSessionForApplicantIn arrays' b levelName).1 =
            (pickSessionForApplicantIn arrays a levelName).1) ∧
      ∀ (server : Server Thrown) (t : Tables) (db : Database) (applicantId : String),
        db.sessions.rows.Perm t.sessions.rows →
        ((t.sessions.rows.filter (·.boundTo applicantId)).map SessionRecord.createdAt).Nodup →
        (KnexStore.getSessionByProviderApplicantId server db applicantId ⟨levelName⟩).1 =
          MemoryStore.getSessionByProviderApplicantId t applicantId ⟨levelName⟩ := by
  refine ⟨?_, pickSessionForApplicantIn_spares arrays a levelName, ?_, ?_⟩
  · rw [pickSessionForApplicantIn_fst]
    exact pickSessionForApplicant_meetsTiers _ _
  · intro hd arrays' b hp
    rw [pickSessionForApplicantIn_fst, pickSessionForApplicantIn_fst]
    exact pickSessionForApplicant_perm hp hd levelName
  · intro server t db applicantId hp hd
    exact getSessionByProviderApplicantId_alike server hp hd ⟨levelName⟩

end Kyc
