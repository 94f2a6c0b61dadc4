import Kyc.Encoding.LowerCase
import Kyc.Json.RoundTrip

/-! # Origins of web pages

The URL standard on `http` and `https` URLs, up to the port: how they are parsed, and how the
origin of a page is written. Hosts are a parameter, with their own parser and serializer.
-/

namespace Kyc.Encoding

open Json

def Plain (c : UInt16) : Prop := 0x20 < c ∧ c < 0x80 ∧ asciiLower c = c ∧ c ∉ delimiters

instance : DecidablePred Plain := fun _ => inferInstanceAs (Decidable (_ ∧ _))

/-- Hosts. Domains are written in ASCII and in lower case, and a colon stands in an address alone,
between brackets. -/
structure HostParser where
  Host : Type
  parse : Text → Option Host
  serialize : Host → Text
  parse_serialize : ∀ host, parse (serialize host) = some host
  serialize_ne_nil : ∀ host, serialize host ≠ []
  plain : ∀ host, ∀ c ∈ serialize host, Plain c
  colons : ∀ host, (∀ c ∈ serialize host, c ∉ lit ":[]") ∨
    ∃ address, serialize host = unit '[' :: (address ++ [unit ']']) ∧ ∀ c ∈ address, c ∉ lit "[]"

inductive WebScheme
  | https
  | http
  deriving DecidableEq, Repr

namespace WebScheme

def text : WebScheme → Text
  | https => lit "https:"
  | http => lit "http:"

def defaultPort : WebScheme → ℕ
  | https => 443
  | http => 80

def Port (scheme : WebScheme) : Type := {n : ℕ // n < 65536 ∧ n ≠ scheme.defaultPort}

variable (scheme : WebScheme)

/-- The port that some digits stand for: none if there are no digits, or for the default port. -/
def port? (digits : Text) : Option (Option scheme.Port) :=
  if digits.all isDigit then
    if digits = [] ∨ decimal.read digits = scheme.defaultPort then some none
    else if h : decimal.read digits < 65536 ∧ decimal.read digits ≠ scheme.defaultPort then
      some (some ⟨decimal.read digits, h⟩)
    else none
  else none

def portText : Option scheme.Port → Text
  | none => []
  | some n => unit ':' :: decimal.print n.val

end WebScheme

variable (H : HostParser)

structure Origin where
  scheme : WebScheme
  host : H.Host
  port : Option scheme.Port

variable {H}

def Origin.authority (origin : Origin H) : Text :=
  H.serialize origin.host ++ origin.scheme.portText origin.port

def Origin.serialize (origin : Origin H) : Text :=
  origin.scheme.text ++ lit "//" ++ origin.authority

section Parser

def isControlOrSpace (c : UInt16) : Bool := c ≤ 0x20

/-- The input of the parser: trimmed, and without tabs and line ends. -/
def cleanUrl (url : Text) : Text :=
  ((url.dropWhile isControlOrSpace).rdropWhile isControlOrSpace).filter (· ∉ [9, 10, 13])

def webScheme? (url : Text) : Option WebScheme :=
  [.https, .http].find? fun scheme => scheme.text <+: url.map asciiLower

/-- The host, up to a colon that is not between brackets, and what is after the colon. -/
def splitPort : Bool → Text → Text × Text
  | _, [] => ([], [])
  | inside, c :: s =>
    if c = unit ':' ∧ inside = false then ([], s)
    else
      let inside' := if c = unit '[' then true else if c = unit ']' then false else inside
      (c :: (splitPort inside' s).1, (splitPort inside' s).2)

variable (H)

/-- The origin of the page that a URL names: slashes of both kinds start the authority and end it,
and it may begin with user information. -/
def pageOrigin? (url : Text) : Option (Origin H) :=
  (webScheme? (cleanUrl url)).bind fun scheme =>
    let rest := ((cleanUrl url).drop scheme.text.length).dropWhile (· ∈ lit "/\\")
    let authority := splitPort false (afterLast (unit '@') (upTo (lit "/\\?#") rest))
    if authority.1 = [] then none
    else
      (H.parse authority.1).bind fun host =>
        (scheme.port? authority.2).map fun port => ⟨scheme, host, port⟩

/-- What comes after the authority of a web page's URL: its path, a query and a fragment. -/
def afterAuthority (url : Text) : Text :=
  match webScheme? (cleanUrl url) with
  | some scheme =>
    (((cleanUrl url).drop scheme.text.length).dropWhile (· ∈ lit "/\\")).dropWhile
      (· ∉ lit "/\\?#")
  | none => []

end Parser

theorem plain_colon : Plain (unit ':') := by decide

theorem plain_of_isDigit {c : UInt16} (h : isDigit c) : Plain c := by
  have range : 48 ≤ c.toNat ∧ c.toNat ≤ 57 := by
    simp only [isDigit, decide_eq_true_eq, UInt16.le_iff_toNat_le] at h
    exact h
  have others : ∀ d ∈ delimiters, d.toNat < 48 ∨ 57 < d.toNat := by decide
  refine ⟨UInt16.lt_iff_toNat_lt.mpr ?_, UInt16.lt_iff_toNat_lt.mpr ?_, ?_, ?_⟩
  · rw [show (0x20 : UInt16).toNat = 32 from rfl]
    omega
  · rw [show (0x80 : UInt16).toNat = 128 from rfl]
    omega
  · rw [← UInt16.toNat_inj, asciiLower_toNat]
    split_ifs <;> omega
  · intro hc
    rcases others c hc with low | high <;> omega

namespace WebScheme

variable (scheme : WebScheme)

theorem port?_print (n : scheme.Port) : scheme.port? (decimal.print n.val) = some (some n) := by
  have ne_nil : decimal.print n.val ≠ [] := fun empty =>
    Nat.toDigits_ne_nil (List.map_eq_nil_iff.mp empty)
  have digits : (decimal.print n.val).all isDigit :=
    List.all_eq_true.mpr fun _ hc => isDigit_of_mem_print hc
  simp only [port?, if_pos digits, decimal_read_print, ne_nil, n.2.2, false_or, if_false,
    dif_pos n.2]
  rfl

theorem plain_portText (port : Option scheme.Port) : ∀ c ∈ scheme.portText port, Plain c := by
  cases port with
  | none => exact fun c hc => absurd hc List.not_mem_nil
  | some n =>
    rintro c hc
    rcases List.mem_cons.mp hc with rfl | hc
    · exact plain_colon
    · exact plain_of_isDigit (isDigit_of_mem_print hc)

theorem webScheme?_append (rest : Text) : webScheme? (scheme.text ++ rest) = some scheme := by
  have apart : ¬ https.text <+: http.text := by decide
  have own : scheme.text <+: (scheme.text ++ rest).map asciiLower := by
    have fixed : scheme.text.map asciiLower = scheme.text := by cases scheme <;> decide
    rw [List.map_append, fixed]
    exact List.prefix_append _ _
  cases scheme with
  | https => exact List.find?_cons_of_pos (decide_eq_true own)
  | http =>
    have other : ¬ https.text <+: (http.text ++ rest).map asciiLower := fun h =>
      (List.prefix_or_prefix_of_prefix h own).elim apart (by decide)
    rw [webScheme?, List.find?_cons_of_neg (by simpa using other)]
    exact List.find?_cons_of_pos (decide_eq_true own)

end WebScheme

theorem splitPort_append {inside : Bool} {a : Text} (ha : ∀ c ∈ a, c ∉ lit "[]")
    (colons : inside = true ∨ unit ':' ∉ a) (t : Text) :
    splitPort inside (a ++ t) = (a ++ (splitPort inside t).1, (splitPort inside t).2) := by
  induction a with
  | nil => rfl
  | cons c a ih =>
    obtain ⟨hc, ha⟩ := List.forall_mem_cons.mp ha
    have go : ¬ (c = unit ':' ∧ inside = false) := by
      rintro ⟨rfl, rfl⟩
      simp at colons
    have opening : c ≠ unit '[' := fun h => hc (h ▸ by decide)
    have closing : c ≠ unit ']' := fun h => hc (h ▸ by decide)
    rw [List.cons_append, splitPort, if_neg go, if_neg opening, if_neg closing]
    dsimp only
    rw [ih ha (colons.imp_right fun h => fun mem => h (List.mem_cons_of_mem _ mem))]
    rfl

theorem splitPort_serialize (host : H.Host) (t : Text) :
    splitPort false (H.serialize host ++ t) =
      (H.serialize host ++ (splitPort false t).1, (splitPort false t).2) := by
  rcases H.colons host with domain | ⟨address, written, free⟩
  · have free : ∀ c ∈ H.serialize host, c ∉ lit "[]" := fun c hc mem =>
      domain c hc (List.mem_cons_of_mem _ mem)
    exact splitPort_append free (Or.inr fun hc => domain _ hc (by decide)) t
  · have enter (s : Text) : splitPort false (unit '[' :: s) =
        (unit '[' :: (splitPort true s).1, (splitPort true s).2) := rfl
    have leave (s : Text) : splitPort true (unit ']' :: s) =
        (unit ']' :: (splitPort false s).1, (splitPort false s).2) := rfl
    rw [written, List.cons_append, List.append_assoc, List.singleton_append, enter,
      splitPort_append free (Or.inl rfl), leave]
    simp

theorem splitPort_authority (origin : Origin H) :
    (splitPort false origin.authority).1 = H.serialize origin.host ∧
      origin.scheme.port? (splitPort false origin.authority).2 = some origin.port := by
  rw [Origin.authority, splitPort_serialize]
  cases origin.port with
  | none => exact ⟨List.append_nil _, by cases origin.scheme <;> rfl⟩
  | some n => exact ⟨List.append_nil _, origin.scheme.port?_print n⟩

theorem Origin.plain (origin : Origin H) : ∀ c ∈ origin.authority, Plain c := by
  rintro c hc
  rcases List.mem_append.mp hc with hc | hc
  · exact H.plain _ c hc
  · exact origin.scheme.plain_portText _ c hc

theorem Origin.authority_ne_nil (origin : Origin H) : origin.authority ≠ [] := by
  rintro empty
  exact H.serialize_ne_nil _ (List.append_eq_nil_iff.mp empty).1

theorem Origin.visible (origin : Origin H) : ∀ c ∈ origin.serialize, 0x20 < c := by
  have schemes : ∀ scheme : WebScheme, ∀ c ∈ scheme.text ++ lit "//", (0x20 : UInt16) < c := by
    rintro (_ | _) <;> decide
  rintro c hc
  rcases List.mem_append.mp hc with hc | hc
  · exact schemes _ c hc
  · exact (origin.plain c hc).1

theorem Origin.free (origin : Origin H) : ∀ c ∈ origin.authority, c ∉ lit "/\\?#" :=
  fun c hc mem => (origin.plain c hc).2.2.2 ((by decide : lit "/\\?#" ⊆ delimiters) mem)

theorem Origin.slashes (origin : Origin H) (rest : Text) :
    (lit "//" ++ (origin.authority ++ rest)).dropWhile (· ∈ lit "/\\") =
      origin.authority ++ rest := by
  obtain ⟨c, a, written⟩ := List.exists_cons_of_ne_nil origin.authority_ne_nil
  have hc : c ∉ lit "/\\" := fun mem =>
    origin.free c (by rw [written]; exact List.mem_cons_self)
      ((by decide : lit "/\\" ⊆ lit "/\\?#") mem)
  rw [List.dropWhile_append_of_pos (by decide), written]
  exact List.dropWhile_cons_of_neg (by simpa using hc)

theorem cleanUrl_append {a : Text} (ne_nil : a ≠ []) (ha : ∀ c ∈ a, 0x20 < c) (t : Text) :
    cleanUrl (a ++ t) = a ++ (t.rdropWhile isControlOrSpace).filter (· ∉ [9, 10, 13]) := by
  have visible : ∀ c ∈ a, ¬ isControlOrSpace c := fun c hc => by
    simpa [isControlOrSpace] using ha c hc
  have kept : ∀ c ∈ a, decide (c ∉ [9, 10, 13]) = true := by
    rintro c hc
    have : ∀ d ∈ ([9, 10, 13] : List UInt16), ¬ (0x20 : UInt16) < d := by decide
    exact decide_eq_true fun mem => this c mem (ha c hc)
  have start : (a ++ t).dropWhile isControlOrSpace = a ++ t := by
    cases a with
    | nil => exact absurd rfl ne_nil
    | cons c a => exact List.dropWhile_cons_of_neg (visible c List.mem_cons_self)
  rw [cleanUrl, start, rdropWhile_append visible, List.filter_append, List.filter_eq_self.mpr kept]

theorem cleanUrl_serialize (origin : Origin H) {D rest : Text} (hD : ∀ c ∈ D, 0x20 < c)
    (hrest : ∀ c ∈ rest.head?, c ∈ D) :
    ∃ rest', cleanUrl (origin.serialize ++ rest) = origin.serialize ++ rest' ∧
      ∀ c ∈ rest'.head?, c ∈ D := by
  have ne_nil : origin.serialize ≠ [] := fun empty =>
    origin.authority_ne_nil (List.append_eq_nil_iff.mp empty).2
  cases rest with
  | nil =>
    exact ⟨[], cleanUrl_append ne_nil origin.visible [], by simp⟩
  | cons c rest =>
    have hc := hrest c rfl
    have visible : ∀ d ∈ origin.serialize ++ [c], 0x20 < d := by
      rintro d hd
      rcases List.mem_append.mp hd with hd | hd
      · exact origin.visible d hd
      · rw [List.mem_singleton.mp hd]
        exact hD c hc
    refine ⟨c :: (rest.rdropWhile isControlOrSpace).filter (· ∉ [9, 10, 13]), ?_, by simpa using hc⟩
    rw [List.append_cons, cleanUrl_append (by simp) visible, List.append_assoc,
      List.singleton_append]

/-- An origin is read as it is written, before a path, a query or a fragment. -/
theorem pageOrigin?_serialize (origin : Origin H) {rest : Text}
    (hrest : ∀ c ∈ rest.head?, c ∈ lit "/\\?#") :
    pageOrigin? H (origin.serialize ++ rest) = some origin := by
  obtain ⟨rest', clean, hrest'⟩ := cleanUrl_serialize origin (by decide) hrest
  have no_user : unit '@' ∉ origin.authority := fun hc =>
    (origin.plain _ hc).2.2.2 (by decide)
  obtain ⟨host, port⟩ := splitPort_authority origin
  rw [pageOrigin?, clean, Origin.serialize, List.append_assoc, List.append_assoc,
    origin.scheme.webScheme?_append, Option.bind_some, List.drop_left, origin.slashes]
  dsimp only
  rw [upTo_append_of_ends origin.free hrest', afterLast_of_not_mem no_user, host, port,
    if_neg (H.serialize_ne_nil _), H.parse_serialize]
  rfl

theorem afterAuthority_serialize (origin : Origin H) {path : Text}
    (visible : ∀ c ∈ path, 0x20 < c) (start : ∀ c ∈ path.head?, c ∈ lit "/\\?#") :
    afterAuthority (origin.serialize ++ path) = path := by
  have clean : cleanUrl (origin.serialize ++ path) = origin.serialize ++ path := by
    have ne_nil : origin.serialize ++ path ≠ [] := fun empty =>
      origin.authority_ne_nil
        (List.append_eq_nil_iff.mp (List.append_eq_nil_iff.mp empty).1).2
    have all : ∀ c ∈ origin.serialize ++ path, 0x20 < c :=
      List.forall_mem_append.mpr ⟨origin.visible, visible⟩
    simpa using cleanUrl_append ne_nil all []
  have free : ∀ c ∈ origin.authority, decide (c ∉ lit "/\\?#") = true := fun c hc =>
    decide_eq_true (origin.free c hc)
  rw [afterAuthority, clean, Origin.serialize, List.append_assoc, List.append_assoc,
    origin.scheme.webScheme?_append]
  dsimp only
  rw [List.drop_left, origin.slashes, List.dropWhile_append_of_pos free]
  cases path with
  | nil => rfl
  | cons c path => exact List.dropWhile_cons_of_neg (by simpa using start c rfl)

theorem LowerCase.lower_serialize (L : LowerCase) (origin : Origin H) :
    L.lower origin.serialize = origin.serialize := by
  have schemes : ∀ scheme : WebScheme, ∀ c ∈ scheme.text ++ lit "//",
      c < 0x80 ∧ asciiLower c = c := by
    rintro (_ | _) <;> decide
  have lowered : ∀ c ∈ origin.serialize, c < 0x80 ∧ asciiLower c = c := by
    rintro c hc
    rcases List.mem_append.mp hc with hc | hc
    · exact schemes _ c hc
    · exact ⟨(origin.plain c hc).2.1, (origin.plain c hc).2.2.1⟩
  rw [L.lower_ascii _ fun c hc => UInt16.lt_iff_toNat_lt.mp (lowered c hc).1]
  exact List.map_congr_left (fun c hc => (lowered c hc).2) |>.trans (List.map_id _)

def nameUnits : Text := lit "abcdefghijklmnopqrstuvwxyz0123456789-."

def nameHosts : HostParser where
  Host := {name : Text // name ≠ [] ∧ ∀ c ∈ name, c ∈ nameUnits}
  parse s :=
    if h : s.map asciiLower ≠ [] ∧ ∀ c ∈ s.map asciiLower, c ∈ nameUnits then
      some ⟨s.map asciiLower, h⟩
    else none
  serialize name := name.val
  parse_serialize := by
    rintro ⟨name, h⟩
    have fixed : ∀ c ∈ nameUnits, asciiLower c = c := by decide
    have lowered : name.map asciiLower = name :=
      List.map_congr_left (fun c hc => fixed c (h.2 c hc)) |>.trans (List.map_id _)
    simp only [lowered]
    exact dif_pos h
  serialize_ne_nil name := name.2.1
  plain name c hc := by
    have : ∀ c ∈ nameUnits, Plain c := by decide
    exact this c (name.2.2 c hc)
  colons name := by
    have : ∀ c ∈ nameUnits, c ∉ lit ":[]" := by decide
    exact Or.inl fun c hc => this c (name.2.2 c hc)

/-- User information, the default port and upper case are no part of an origin. -/
example : (pageOrigin? nameHosts (lit " hTTps:\\\\me:x@API.example.com:0443\\hosted?a@b")).map
    Origin.serialize = some (lit "https://api.example.com") := by
  decide +kernel

end Kyc.Encoding
