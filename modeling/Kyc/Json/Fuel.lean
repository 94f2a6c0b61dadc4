import Kyc.Json.Syntax

/-! # Reading never runs out of fuel

Every reader leaves less text than it was given, so that the length of a text is fuel enough
for it: more fuel changes neither what is read nor whether anything is.
-/

namespace Kyc.Json

variable {α ν : Type}

def Consumes (read : Text → Option (α × Text)) : Prop :=
  ∀ s x rest, read s = some (x, rest) → rest.length < s.length

theorem length_skip_le (s : Text) : (skip s).length ≤ s.length :=
  (List.dropWhile_sublist _).length_le

theorem length_of_skip {s : Text} {c : UInt16} {rest : Text} (h : skip s = c :: rest) :
    rest.length < s.length := by
  have := length_skip_le s
  rw [h, List.length_cons] at this
  omega

/-- What a string is read as, unit by unit up to its quote, and what it leaves. -/
inductive StringText : Text → Text → Text → Prop
  | quote (rest : Text) : StringText (unit '"' :: rest) [] rest
  | code {a b c d x : UInt16} {s t rest : Text} (hx : readCode a b c d = some x)
      (h : StringText s t rest) :
      StringText (unit '\\' :: unit 'u' :: a :: b :: c :: d :: s) (x :: t) rest
  | escape {e x : UInt16} {s t rest : Text} (hu : e ≠ unit 'u') (hx : readEscape e = some x)
      (h : StringText s t rest) : StringText (unit '\\' :: e :: s) (x :: t) rest
  | plain {c : UInt16} {s t rest : Text} (hquote : c ≠ unit '"') (hslash : c ≠ unit '\\')
      (hcontrol : ¬ c < 32) (h : StringText s t rest) : StringText (c :: s) (c :: t) rest

theorem exists_of_prepend {c : UInt16} {s x rest : Text}
    (h : (readString s).map (prepend c) = some (x, rest)) :
    ∃ t, x = c :: t ∧ readString s = some (t, rest) := by
  obtain ⟨⟨t, u⟩, ht, heq⟩ := Option.map_eq_some_iff.mp h
  obtain ⟨rfl, rfl⟩ : c :: t = x ∧ u = rest := by simpa [prepend] using heq
  exact ⟨t, rfl, ht⟩

theorem stringText_of_readString {s x rest : Text} (h : readString s = some (x, rest)) :
    StringText s x rest := by
  induction s using readString.induct generalizing x rest with
  | case1 => simp [readString] at h
  | case2 s =>
    rw [readString.eq_def] at h
    obtain ⟨rfl, rfl⟩ : [] = x ∧ s = rest := by simpa using h
    exact .quote s
  | case3 _ =>
    rw [readString.eq_def] at h
    simp [unit] at h
  | case4 a b c d s _ ih =>
    rw [readString.eq_def] at h
    obtain ⟨u, hu, h⟩ := Option.bind_eq_some_iff.mp h
    obtain ⟨t, rfl, ht⟩ := exists_of_prepend h
    exact .code hu (ih ht)
  | case5 s short _ =>
    rw [readString.eq_def] at h
    dsimp only at h
    rw [if_neg (by decide), if_pos rfl, if_pos rfl] at h
    split at h
    · exact absurd rfl (short _ _ _ _ _)
    · cases h
  | case6 e s he _ ih =>
    rw [readString.eq_def] at h
    dsimp only at h
    rw [if_neg (by decide), if_pos rfl, if_neg he] at h
    obtain ⟨u, hu, h⟩ := Option.bind_eq_some_iff.mp h
    obtain ⟨t, rfl, ht⟩ := exists_of_prepend h
    exact .escape he hu (ih ht)
  | case7 c s hquote hslash hcontrol =>
    rw [readString.eq_def] at h
    simp [hquote, hslash, hcontrol] at h
  | case8 c s hquote hslash hcontrol ih =>
    rw [readString.eq_def] at h
    dsimp only at h
    rw [if_neg hquote, if_neg hslash, if_neg hcontrol] at h
    obtain ⟨t, rfl, ht⟩ := exists_of_prepend h
    exact .plain hquote hslash hcontrol (ih ht)

theorem consumes_readString : Consumes readString := by
  rintro s x rest h
  replace h := stringText_of_readString h
  induction h with
  | quote => exact Nat.lt_succ_self _
  | code _ _ ih | escape _ _ _ ih | plain _ _ _ _ ih =>
    simp only [List.length_cons]
    omega

variable {item item' : Text → Option (α × Text)} {close : UInt16}

theorem Consumes.cons (hitem : Consumes item) {more : Text → Option (List α × Text)}
    (hmore : Consumes more) :
    Consumes fun s => (item s).bind fun (x, rest) =>
      (more rest).map fun (xs, rest) => (x :: xs, rest) := by
  rintro s xs rest h
  obtain ⟨⟨x, t⟩, hx, h⟩ := Option.bind_eq_some_iff.mp h
  obtain ⟨⟨ys, u⟩, hys, heq⟩ := Option.map_eq_some_iff.mp h
  obtain rfl : u = rest := congrArg Prod.snd heq
  have first := hitem s x t hx
  have others := hmore t ys u hys
  omega

theorem consumes_readMore (hitem : Consumes item) (fuel : ℕ) :
    Consumes (readMore item close fuel) := by
  induction fuel with
  | zero => simp [Consumes, readMore]
  | succ fuel ih =>
    rintro s xs rest h
    rw [readMore] at h
    split at h
    · simp at h
    · rename_i c t ht
      have start := length_of_skip ht
      split_ifs at h
      · obtain ⟨-, rfl⟩ : _ ∧ t = rest := by simpa using h
        exact start
      · have elements := hitem.cons ih t xs rest h
        omega

theorem consumes_readList (hitem : Consumes item) (fuel : ℕ) :
    Consumes (readList item close fuel) := by
  rintro s xs rest h
  rw [readList] at h
  split at h
  · simp at h
  · rename_i c t ht
    have start := length_skip_le s
    rw [ht] at start
    split_ifs at h
    · obtain ⟨-, rfl⟩ : _ ∧ t = rest := by simpa using h
      exact start
    · have elements := hitem.cons (consumes_readMore hitem fuel) _ xs rest h
      omega

theorem consumes_readField (hitem : Consumes item) : Consumes (readField item) := by
  rintro s x rest h
  rw [readField] at h
  split at h
  · simp at h
  · rename_i c t ht
    have start := length_of_skip ht
    split_ifs at h
    obtain ⟨⟨name, u⟩, hname, h⟩ := Option.bind_eq_some_iff.mp h
    have named := consumes_readString t name u hname
    dsimp only at h
    split at h
    · simp at h
    · rename_i d w hw
      have colon := length_of_skip hw
      split_ifs at h
      obtain ⟨⟨v, y⟩, hv, heq⟩ := Option.map_eq_some_iff.mp h
      obtain rfl : y = rest := congrArg Prod.snd heq
      have value := hitem w v y hv
      omega

variable {N : Numerals ν}

theorem readWord_length {word : String} {v x : Value ν} {s rest : Text} (hword : lit word ≠ [])
    (h : readWord word v s = some (x, rest)) : rest.length < s.length := by
  rw [readWord] at h
  split_ifs at h with hs
  obtain ⟨-, rfl⟩ : _ ∧ s.drop (lit word).length = rest := by simpa using h
  have short := hs.length_le
  have long := List.length_pos_iff.mpr hword
  rw [List.length_drop]
  omega

theorem readNumber_length {x : Value ν} {s rest : Text}
    (h : readNumber N s = some (x, rest)) : rest.length < s.length := by
  rw [readNumber] at h
  split_ifs at h with hs
  obtain ⟨-, rfl⟩ : _ ∧ s.dropWhile isNumeric = rest := by simpa using h
  have parts : (s.takeWhile isNumeric).length + (s.dropWhile isNumeric).length = s.length := by
    rw [← List.length_append, List.takeWhile_append_dropWhile]
  have some_unit : s.takeWhile isNumeric ≠ [] := by
    rintro h
    simp [h, isNumeral, unsigned, integer] at hs
  have := List.length_pos_iff.mpr some_unit
  omega

theorem length_of_map {β : Type} (f : β → Value ν) {read : Option (β × Text)} {x : Value ν}
    {rest : Text} {n : ℕ} (hread : ∀ y rest, read = some (y, rest) → rest.length < n)
    (h : (read.map fun (y, rest) => (f y, rest)) = some (x, rest)) : rest.length < n := by
  obtain ⟨⟨y, t⟩, hy, heq⟩ := Option.map_eq_some_iff.mp h
  obtain rfl : t = rest := congrArg Prod.snd heq
  exact hread y t hy

theorem consumes_readValue (fuel : ℕ) : Consumes (readValue N fuel) := by
  induction fuel with
  | zero => simp [Consumes, readValue]
  | succ fuel ih =>
    rintro s x rest h
    rw [readValue] at h
    split at h
    · simp at h
    · rename_i c t ht
      have start := length_of_skip ht
      have whole := length_skip_le s
      rw [ht] at whole
      have word {word : String} {v : Value ν} (hword : lit word ≠ [])
          (h : readWord word v (c :: t) = some (x, rest)) : rest.length < s.length :=
        Nat.lt_of_lt_of_le (readWord_length hword h) whole
      have inside {β : Type} (f : β → Value ν) {read : Text → Option (β × Text)}
          (hread : Consumes read)
          (h : ((read t).map fun (y, rest) => (f y, rest)) = some (x, rest)) :
          rest.length < s.length :=
        Nat.lt_trans (length_of_map f (hread t) h) start
      split_ifs at h
      · exact inside .string consumes_readString h
      · exact inside .array (consumes_readList ih fuel) h
      · exact inside (.object ∘ merge) (consumes_readList (consumes_readField ih) fuel) h
      · exact word (by decide) h
      · exact word (by decide) h
      · exact word (by decide) h
      · exact Nat.lt_of_lt_of_le (readNumber_length h) whole

section Enough

variable {bound : ℕ} (hitem : Consumes item) (agree : ∀ s, s.length ≤ bound → item s = item' s)

include hitem agree

theorem readMore_congr {fuel fuel' : ℕ} {s : Text} (hs : s.length ≤ bound)
    (hfuel : s.length < fuel) (hfuel' : s.length < fuel') :
    readMore item close fuel s = readMore item' close fuel' s := by
  induction fuel generalizing fuel' s with
  | zero => simp at hfuel
  | succ fuel ih =>
    obtain ⟨fuel', rfl⟩ : ∃ n, fuel' = n + 1 := ⟨fuel' - 1, by omega⟩
    rw [readMore, readMore]
    split
    · rfl
    · rename_i c t ht
      have start := length_of_skip ht
      rw [← agree t (by omega)]
      cases hx : item t with
      | none => rfl
      | some r =>
        have shorter := hitem t r.1 r.2 hx
        simp only [Option.bind_some]
        have others : readMore item close fuel r.2 = readMore item' close fuel' r.2 :=
          ih (by omega) (by omega) (by omega)
        rw [others]

theorem readList_congr {fuel fuel' : ℕ} {s : Text} (hs : s.length ≤ bound)
    (hfuel : s.length ≤ fuel) (hfuel' : s.length ≤ fuel') :
    readList item close fuel s = readList item' close fuel' s := by
  rw [readList, readList]
  split
  · rfl
  · rename_i c t ht
    have start := length_skip_le s
    rw [ht] at start
    rw [← agree (c :: t) (by omega)]
    cases hx : item (c :: t) with
    | none => rfl
    | some r =>
      have shorter := hitem _ r.1 r.2 hx
      simp only [Option.bind_some]
      have others : readMore item close fuel r.2 = readMore item' close fuel' r.2 :=
        readMore_congr hitem agree (by omega) (by omega) (by omega)
      rw [others]

omit hitem in
theorem readField_congr {s : Text} (hs : s.length ≤ bound) :
    readField item s = readField item' s := by
  rw [readField, readField]
  split
  · rfl
  · rename_i c t ht
    have start := length_of_skip ht
    cases hname : readString t with
    | none => rfl
    | some r =>
      have named := consumes_readString t r.1 r.2 hname
      simp only [Option.bind_some]
      cases hw : skip r.2 with
      | nil => rfl
      | cons d w =>
        have colon := length_of_skip hw
        simp only [agree w (by omega)]

end Enough

theorem readValue_of_fuel {fuel fuel' : ℕ} {s : Text} (hfuel : s.length < fuel)
    (hfuel' : s.length < fuel') : readValue N fuel s = readValue N fuel' s := by
  induction fuel generalizing fuel' s with
  | zero => simp at hfuel
  | succ fuel ih =>
    obtain ⟨fuel', rfl⟩ : ∃ n, fuel' = n + 1 := ⟨fuel' - 1, by omega⟩
    rw [readValue, readValue]
    split
    · rfl
    · rename_i c t ht
      have start := length_of_skip ht
      have agree : ∀ u, u.length ≤ t.length → readValue N fuel u = readValue N fuel' u :=
        fun u hu => ih (by omega) (by omega)
      have items : readList (readValue N fuel) (unit ']') fuel t
          = readList (readValue N fuel') (unit ']') fuel' t :=
        readList_congr (consumes_readValue fuel) agree (Nat.le_refl _) (by omega) (by omega)
      have fields : readList (readField (readValue N fuel)) (unit '}') fuel t
          = readList (readField (readValue N fuel')) (unit '}') fuel' t :=
        readList_congr (consumes_readField (consumes_readValue (N := N) fuel))
          (fun u hu => readField_congr agree hu) (Nat.le_refl _) (by omega) (by omega)
      rw [items, fields]

end Kyc.Json
