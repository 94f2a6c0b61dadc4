import Kyc.Json.Fuel
import Kyc.Json.RoundTrip

/-! # Escapes put into a finished JSON text

Some units of a JSON text are replaced by their escapes, wherever they stand. Units
that the grammar has no use for stand inside strings only, and never behind a
backslash; so whatever the text was read as, it still is.
-/

namespace Kyc.Json

variable {α ν : Type}

/-- The grammar has no use for the unit: it can only stand for itself, in a string. -/
def Ordinary (c : UInt16) : Prop :=
  isSpace c = false ∧ isNumeric c = false ∧ hexValue c = none ∧ ¬ c < 32 ∧
    c ∉ lit "\"\\/[]\x7b\x7d,:nulltruefalsebr"

instance (c : UInt16) : Decidable (Ordinary c) :=
  inferInstanceAs (Decidable (_ ∧ _ ∧ _ ∧ _ ∧ _))

def shield (units : List UInt16) (s : Text) : Text :=
  s.flatMap fun c => if c ∈ units then escapeCode c else [c]

section Shield

variable {units : List UInt16} {c : UInt16} {s t : Text}

theorem shield_append (s t : Text) : shield units (s ++ t) = shield units s ++ shield units t :=
  List.flatMap_append

theorem shield_cons_of_mem (hc : c ∈ units) (s : Text) :
    shield units (c :: s) = escapeCode c ++ shield units s := by
  rw [shield, List.flatMap_cons, if_pos hc, shield]

theorem shield_cons_of_not_mem (hc : c ∉ units) (s : Text) :
    shield units (c :: s) = c :: shield units s := by
  rw [shield, List.flatMap_cons, if_neg hc, List.singleton_append, shield]

theorem shield_eq_self (h : ∀ c ∈ s, c ∉ units) : shield units s = s := by
  induction s with
  | nil => rfl
  | cons c s ih =>
    rw [shield_cons_of_not_mem (h c List.mem_cons_self),
      ih fun d hd => h d (List.mem_cons_of_mem c hd)]

variable (units) in
theorem length_le_shield (s : Text) : s.length ≤ (shield units s).length := by
  induction s with
  | nil => exact Nat.le_refl _
  | cons c s ih =>
    by_cases hc : c ∈ units
    · rw [shield_cons_of_mem hc, List.length_append, List.length_cons]
      have : 0 < (escapeCode c).length := by simp [escapeCode]
      omega
    · rw [shield_cons_of_not_mem hc, List.length_cons, List.length_cons]
      omega

theorem not_ordinary_of_mem_escapeCode {d : UInt16} (h : d ∈ escapeCode c) : ¬ Ordinary d := by
  have hex {n : ℕ} (hn : n < 16) : ¬ Ordinary (hexDigit n) := by
    rintro ⟨-, -, hnone, -⟩
    rw [hexValue_hexDigit hn] at hnone
    cases hnone
  have hc : c.toNat < 65536 := c.toNat_lt
  rw [escapeCode, List.mem_append] at h
  rcases h with h | h
  · have plain : ∀ d ∈ lit "\\u", ¬ Ordinary d := by decide
    exact plain d h
  · simp only [List.mem_cons, List.not_mem_nil, or_false] at h
    rcases h with rfl | rfl | rfl | rfl <;> exact hex (by omega)

variable (ordinary : ∀ c ∈ units, Ordinary c)

include ordinary

theorem not_mem_shield (hc : c ∈ units) (s : Text) : c ∉ shield units s := by
  intro h
  obtain ⟨d, -, hd⟩ := List.mem_flatMap.mp h
  split_ifs at hd with hunits
  · exact not_ordinary_of_mem_escapeCode hd (ordinary c hc)
  · exact hunits (List.mem_singleton.mp hd ▸ hc)

theorem shield_cons (hc : ¬ Ordinary c) (s : Text) :
    shield units (c :: s) = c :: shield units s :=
  shield_cons_of_not_mem (fun h => hc (ordinary c h)) s

theorem shield_of_grammar (h : ∀ c ∈ s, ¬ Ordinary c) (t : Text) :
    shield units (s ++ t) = s ++ shield units t := by
  rw [shield_append, shield_eq_self fun c hc hmem => h c hc (ordinary c hmem)]

theorem skip_shield (s : Text) : skip (shield units s) = shield units (skip s) := by
  induction s with
  | nil => rfl
  | cons c s ih =>
    by_cases hspace : isSpace c
    · have hc : ¬ Ordinary c := fun h => by simp [h.1] at hspace
      have drops (t : Text) : skip (c :: t) = skip t := List.dropWhile_cons_of_pos hspace
      rw [shield_cons ordinary hc, drops, drops, ih]
    · have hskip : skip (c :: s) = c :: s := skip_cons (by simpa using hspace) s
      rw [hskip]
      by_cases hc : c ∈ units
      · rw [shield_cons_of_mem hc]
        exact skip_cons (by decide) _
      · rw [shield_cons_of_not_mem hc]
        exact skip_cons (by simpa using hspace) _

theorem exists_skip_shield (h : skip s = c :: t) (hc : ¬ Ordinary c) :
    skip (shield units s) = c :: shield units t := by
  rw [skip_shield ordinary, h, shield_cons ordinary hc]

end Shield

section Read

theorem readString_code (a b c d : UInt16) (rest : Text) :
    readString (unit '\\' :: unit 'u' :: a :: b :: c :: d :: rest) =
      (readCode a b c d).bind fun x => (readString rest).map (prepend x) := by
  rw [readString.eq_def]
  simp [unit]

theorem readString_readEscape {e : UInt16} (hu : e ≠ unit 'u') (rest : Text) :
    readString (unit '\\' :: e :: rest) =
      (readEscape e).bind fun x => (readString rest).map (prepend x) := by
  rw [readString.eq_def]
  simp [hu, show unit '\\' ≠ unit '"' by decide]

theorem not_ordinary_of_hexValue {c : UInt16} {n : ℕ} (h : hexValue c = some n) :
    ¬ Ordinary c := by
  rintro ⟨-, -, hnone, -⟩
  rw [h] at hnone
  cases hnone

theorem not_ordinary_of_readCode {a b c d x : UInt16} (h : readCode a b c d = some x) :
    ¬ Ordinary a ∧ ¬ Ordinary b ∧ ¬ Ordinary c ∧ ¬ Ordinary d := by
  obtain ⟨k, ha, h⟩ := Option.bind_eq_some_iff.mp h
  obtain ⟨l, hb, h⟩ := Option.bind_eq_some_iff.mp h
  obtain ⟨m, hc, h⟩ := Option.bind_eq_some_iff.mp h
  obtain ⟨n, hd, -⟩ := Option.bind_eq_some_iff.mp h
  exact ⟨not_ordinary_of_hexValue ha, not_ordinary_of_hexValue hb, not_ordinary_of_hexValue hc,
    not_ordinary_of_hexValue hd⟩

theorem not_ordinary_of_readEscape {e x : UInt16} (h : readEscape e = some x) : ¬ Ordinary e := by
  rintro ⟨-, -, -, -, hgrammar⟩
  have other {c : Char} (hc : unit c ∈ lit "\"\\/[]\x7b\x7d,:nulltruefalsebr") : e ≠ unit c := by
    rintro rfl
    exact hgrammar hc
  rw [readEscape, if_neg, if_neg (other (by decide)), if_neg (other (by decide)),
    if_neg (other (by decide)), if_neg (other (by decide)), if_neg (other (by decide))] at h
  · cases h
  · rintro (h | h | h)
    all_goals exact other (by decide) h

variable {units : List UInt16}

/-- What is read of a text is read of the shielded text, and leaves the shielded rest. -/
def Shields (units : List UInt16) (read : Text → Option (α × Text)) : Prop :=
  ∀ s x rest, read s = some (x, rest) → read (shield units s) = some (x, shield units rest)

variable (ordinary : ∀ c ∈ units, Ordinary c)

include ordinary

theorem shields_readString : Shields units readString := by
  rintro s x rest h
  replace h := stringText_of_readString h
  induction h with
  | quote rest =>
    rw [shield_cons ordinary (by decide), readString.eq_def]
    simp
  | code hx _ ih =>
    obtain ⟨ha, hb, hc, hd⟩ := not_ordinary_of_readCode hx
    rw [shield_cons ordinary (by decide), shield_cons ordinary (by decide),
      shield_cons ordinary ha, shield_cons ordinary hb, shield_cons ordinary hc,
      shield_cons ordinary hd, readString_code, hx, ih]
    rfl
  | escape hu hx _ ih =>
    rw [shield_cons ordinary (by decide), shield_cons ordinary (not_ordinary_of_readEscape hx),
      readString_readEscape hu, hx, ih]
    rfl
  | @plain c s t rest hquote hslash hcontrol _ ih =>
    by_cases hc : c ∈ units
    · rw [shield_cons_of_mem hc, readString_escapeCode, ih]
      rfl
    · rw [shield_cons_of_not_mem hc, readString_cons hquote hslash hcontrol, ih]
      rfl

variable {item : Text → Option (α × Text)} {close : UInt16}

theorem shields_readMore (hitem : Shields units item) (hclose : ¬ Ordinary close) (fuel : ℕ) :
    Shields units (readMore item close fuel) := by
  induction fuel with
  | zero => simp [Shields, readMore]
  | succ fuel ih =>
    intro s xs rest h
    rw [readMore] at h ⊢
    split at h
    · cases h
    · rename_i c t ht
      split_ifs at h with hc hcomma
      · subst hc
        obtain ⟨rfl, rfl⟩ : [] = xs ∧ t = rest := by simpa using h
        rw [exists_skip_shield ordinary ht hclose]
        exact if_pos rfl
      · subst hcomma
        obtain ⟨⟨x, u⟩, hx, h⟩ := Option.bind_eq_some_iff.mp h
        obtain ⟨⟨ys, w⟩, hys, heq⟩ := Option.map_eq_some_iff.mp h
        obtain ⟨rfl, rfl⟩ : x :: ys = xs ∧ w = rest := by simpa using heq
        rw [exists_skip_shield ordinary ht (by decide)]
        dsimp only
        rw [if_neg hc, if_pos rfl, hitem t x u hx]
        exact congrArg (Option.map _) (ih u ys w hys)

variable (units) in
omit ordinary in
theorem exists_shield_cons (c : UInt16) (t : Text) :
    ∃ d u, shield units (c :: t) = d :: u ∧ (d = c ∨ d = unit '\\') := by
  by_cases hc : c ∈ units
  · rw [shield_cons_of_mem hc]
    exact ⟨unit '\\', _, rfl, Or.inr rfl⟩
  · exact ⟨c, _, shield_cons_of_not_mem hc t, Or.inl rfl⟩

theorem shields_readList (hitem : Shields units item) (hclose : ¬ Ordinary close)
    (hslash : close ≠ unit '\\') (fuel : ℕ) : Shields units (readList item close fuel) := by
  intro s xs rest h
  rw [readList] at h ⊢
  split at h
  · cases h
  · rename_i c t ht
    split_ifs at h with hc
    · subst hc
      obtain ⟨rfl, rfl⟩ : [] = xs ∧ t = rest := by simpa using h
      rw [exists_skip_shield ordinary ht hclose]
      exact if_pos rfl
    · obtain ⟨⟨x, u⟩, hx, h⟩ := Option.bind_eq_some_iff.mp h
      obtain ⟨⟨ys, w⟩, hys, heq⟩ := Option.map_eq_some_iff.mp h
      obtain ⟨rfl, rfl⟩ : x :: ys = xs ∧ w = rest := by simpa using heq
      have first := hitem _ x u hx
      obtain ⟨d, t', hd, hdc⟩ := exists_shield_cons units c t
      have hne : d ≠ close := by
        rcases hdc with rfl | rfl
        · exact hc
        · exact hslash.symm
      rw [hd] at first
      rw [skip_shield ordinary, ht, hd]
      dsimp only
      rw [if_neg hne, first]
      exact congrArg (Option.map _) (shields_readMore ordinary hitem hclose fuel u ys w hys)

theorem shields_readField (hitem : Shields units item) : Shields units (readField item) := by
  intro s x rest h
  rw [readField] at h ⊢
  split at h
  · cases h
  · rename_i c t ht
    split_ifs at h with hc
    subst hc
    obtain ⟨⟨name, u⟩, hname, h⟩ := Option.bind_eq_some_iff.mp h
    dsimp only at h
    split at h
    · cases h
    · rename_i d w hw
      split_ifs at h with hd
      subst hd
      obtain ⟨⟨v, y⟩, hv, heq⟩ := Option.map_eq_some_iff.mp h
      obtain ⟨rfl, rfl⟩ : (name, v) = x ∧ y = rest := by simpa using heq
      rw [exists_skip_shield ordinary ht (by decide)]
      dsimp only
      rw [if_pos rfl, shields_readString ordinary t name u hname, Option.bind_some]
      dsimp only
      rw [exists_skip_shield ordinary hw (by decide)]
      dsimp only
      rw [if_pos rfl, hitem w v y hv]
      rfl

variable {N : Numerals ν}

theorem shields_readWord {word : String} (hword : ∀ c ∈ lit word, ¬ Ordinary c) (v : Value ν) :
    Shields units (readWord word v) := by
  intro s x rest h
  rw [readWord] at h
  split_ifs at h with hprefix
  obtain ⟨t, rfl⟩ := hprefix
  obtain ⟨rfl, rfl⟩ : v = x ∧ t = rest := by simpa using h
  rw [shield_of_grammar ordinary hword, readWord, if_pos (List.prefix_append _ _)]
  simp

theorem numeral_shield (s : Text) :
    (shield units s).takeWhile isNumeric = s.takeWhile isNumeric ∧
      (shield units s).dropWhile isNumeric = shield units (s.dropWhile isNumeric) := by
  induction s with
  | nil => exact ⟨rfl, rfl⟩
  | cons c s ih =>
    by_cases hnumeric : isNumeric c
    · have hc : ¬ Ordinary c := fun h => by simp [h.2.1] at hnumeric
      rw [shield_cons ordinary hc, List.takeWhile_cons_of_pos hnumeric,
        List.dropWhile_cons_of_pos hnumeric, List.takeWhile_cons_of_pos hnumeric,
        List.dropWhile_cons_of_pos hnumeric, ih.1, ih.2]
      exact ⟨rfl, rfl⟩
    · obtain ⟨d, t, hd, hdc⟩ := exists_shield_cons units c s
      have stop : ¬ isNumeric d := by
        rcases hdc with rfl | rfl
        · exact hnumeric
        · decide
      rw [List.takeWhile_cons_of_neg hnumeric, List.dropWhile_cons_of_neg hnumeric, hd,
        List.takeWhile_cons_of_neg stop, List.dropWhile_cons_of_neg stop]
      exact ⟨rfl, rfl⟩

theorem shields_readNumber : Shields units (readNumber N) := by
  intro s x rest h
  obtain ⟨taken, dropped⟩ := numeral_shield ordinary s
  rw [readNumber] at h ⊢
  split_ifs at h with hnumeral
  obtain ⟨rfl, rfl⟩ : .number (N.read (s.takeWhile isNumeric)) = x ∧
      s.dropWhile isNumeric = rest := by simpa using h
  rw [taken, dropped, if_pos hnumeral]

omit ordinary in
theorem shields_map {β : Type} {read : Text → Option (β × Text)} (hread : Shields units read)
    (f : β → α) : Shields units fun s => (read s).map fun (y, rest) => (f y, rest) := by
  intro s x rest h
  obtain ⟨⟨y, t⟩, hy, heq⟩ := Option.map_eq_some_iff.mp h
  obtain ⟨rfl, rfl⟩ : f y = x ∧ t = rest := by simpa using heq
  exact congrArg (Option.map _) (hread s y t hy)

omit ordinary in
theorem readValue_of_ordinary {c : UInt16} (hc : Ordinary c) {fuel : ℕ} {s t : Text}
    (h : skip s = c :: t) : readValue N fuel s = none := by
  have other {d : Char} (hd : unit d ∈ lit "\"\\/[]\x7b\x7d,:nulltruefalsebr") : c ≠ unit d := by
    rintro rfl
    exact hc.2.2.2.2 hd
  cases fuel with
  | zero => rfl
  | succ fuel =>
    rw [readValue, h]
    dsimp only
    rw [if_neg (other (by decide)), if_neg (other (by decide)), if_neg (other (by decide)),
      if_neg (other (by decide)), if_neg (other (by decide)), if_neg (other (by decide)),
      readNumber, List.takeWhile_cons_of_neg (by simp [hc.2.1])]
    rfl

/-- Whatever a text is read as, the shielded text is. -/
theorem shields_readValue (fuel : ℕ) : Shields units (readValue N fuel) := by
  induction fuel with
  | zero => simp [Shields, readValue]
  | succ fuel ih =>
    intro s x rest h
    by_cases hstart : ∃ c t, skip s = c :: t ∧ Ordinary c
    · obtain ⟨c, t, hs, hc⟩ := hstart
      rw [readValue_of_ordinary hc hs] at h
      cases h
    · rw [readValue] at h ⊢
      split at h
      · cases h
      · rename_i c t ht
        have hc : ¬ Ordinary c := fun hc => hstart ⟨c, t, ht, hc⟩
        have whole : shield units (c :: t) = c :: shield units t := shield_cons ordinary hc t
        have word {word : String} {v : Value ν} (hword : ∀ c ∈ lit word, ¬ Ordinary c)
            (h : readWord word v (c :: t) = some (x, rest)) :
            readWord word v (c :: shield units t) = some (x, shield units rest) :=
          whole ▸ shields_readWord ordinary hword v _ x rest h
        have items {item : Text → Option (Value ν × Text)} (hitem : Shields units item) :
            Shields units (readList item (unit ']') fuel) :=
          shields_readList ordinary hitem (by decide) (by decide) fuel
        have fields {item : Text → Option ((Text × Value ν) × Text)} (hitem : Shields units item) :
            Shields units (readList item (unit '}') fuel) :=
          shields_readList ordinary hitem (by decide) (by decide) fuel
        rw [exists_skip_shield ordinary ht hc]
        dsimp only
        split_ifs at h ⊢
        · exact shields_map (shields_readString ordinary) _ t x rest h
        · exact shields_map (items ih) _ t x rest h
        · exact shields_map (fields (shields_readField ordinary ih)) (fun fields =>
            .object (merge fields)) t x rest h
        · exact word (by decide) h
        · exact word (by decide) h
        · exact word (by decide) h
        · exact whole ▸ shields_readNumber ordinary _ x rest h

theorem parse_shield {s : Text} {v : Value ν} (h : parse N s = some v) :
    parse N (shield units s) = some v := by
  rw [parse] at h ⊢
  obtain ⟨⟨w, rest⟩, hread, h⟩ := Option.bind_eq_some_iff.mp h
  dsimp only at h
  split_ifs at h with hrest
  obtain rfl : w = v := Option.some.inj h
  have hlength := length_le_shield units s
  have fuel : readValue N (s.length + 1) s = readValue N ((shield units s).length + 1) s :=
    readValue_of_fuel (by omega) (by omega)
  rw [fuel] at hread
  rw [shields_readValue ordinary _ s w rest hread]
  have hskip : skip (shield units rest) = [] := by rw [skip_shield ordinary, hrest]; rfl
  exact if_pos hskip

end Read

end Kyc.Json
