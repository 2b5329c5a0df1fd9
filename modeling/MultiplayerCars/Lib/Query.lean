import MultiplayerCars.Lib.Json.Lexical

/-!
# Query strings

A query string is a list of pairs of a name and a value, `name=value`, with `&` between them; a
percent sign with two hexadecimal digits stands for a byte, and a plus sign for a space.  The
reader follows `net/url`: a piece with a semicolon, or with an escape that is cut short or has
other digits, is passed over, and what is left counts.  A writer that puts names and values in as
they are is understood as long as none of them has a character that means something here.
-/

namespace Lib.Query

open Lib.Json

/-- What stands before the first separator, and what stands after it. -/
def cut (sep : Char) (s : Text) : Text × Text :=
  (s.takeWhile (· != sep), (s.dropWhile (· != sep)).tail)

/-- The bytes that an escaped text stands for, each as the character with its number. -/
def unescape : Text → Option Text
  | [] => some []
  | '%' :: h :: l :: rest =>
    (hexVal h).bind fun a => (hexVal l).bind fun b =>
      (unescape rest).map (Char.ofNat (16 * a + b) :: ·)
  | '%' :: _ => none
  | '+' :: rest => (unescape rest).map (' ' :: ·)
  | c :: rest => (unescape rest).map (c :: ·)

/-- A piece between two separators, if it counts. -/
def parsePair (piece : Text) : Option (Text × Text) :=
  if piece = [] ∨ ';' ∈ piece then none
  else
    (unescape (cut '=' piece).1).bind fun key =>
      (unescape (cut '=' piece).2).map fun value => (key, value)

/-- The pairs of a query string, in order. -/
def parseQuery (query : Text) : List (Text × Text) := (query.splitOn '&').filterMap parsePair

/-- The first value of a name; empty, if there is none. -/
def get (values : List (Text × Text)) (key : Text) : Text :=
  ((values.find? fun p => p.1 == key).map Prod.snd).getD []

/-- The character stands for itself wherever it is. -/
def isBare (c : Char) : Bool := !(['&', '=', ';', '%', '+'].contains c)

/-- The pairs as they are, with their separators. -/
def printQuery (values : List (Text × Text)) : Text :=
  ['&'].intercalate (values.map fun p => p.1 ++ '=' :: p.2)

/-! ### Texts that stand for themselves -/

lemma ne_of_isBare {c d : Char} (hc : isBare c) (hd : ['&', '=', ';', '%', '+'].contains d) :
    c ≠ d := by
  rintro rfl
  simp only [isBare, hd] at hc
  cases hc

lemma unescape_bare {s : Text} (h : s.all isBare) : unescape s = some s := by
  induction s with
  | nil => rfl
  | cons c s ih =>
    rw [List.all_cons, Bool.and_eq_true] at h
    have hpercent : c ≠ '%' := ne_of_isBare h.1 (by decide)
    have hplus : c ≠ '+' := ne_of_isBare h.1 (by decide)
    simp [unescape, hpercent, ih h.2]

lemma not_mem_of_bare {s : Text} {d : Char} (h : s.all isBare)
    (hd : ['&', '=', ';', '%', '+'].contains d) : d ∉ s := fun hmem =>
  ne_of_isBare (List.all_eq_true.mp h d hmem) hd rfl

lemma cut_append {sep : Char} {s : Text} (h : sep ∉ s) (t : Text) :
    cut sep (s ++ sep :: t) = (s, t) := by
  have hs : ∀ c ∈ s, (c != sep) = true := fun c hc => bne_iff_ne.mpr fun he => h (he ▸ hc)
  rw [cut, List.takeWhile_append_of_pos hs, List.dropWhile_append_of_pos hs]
  simp

lemma parsePair_bare {key value : Text} (hk : key.all isBare) (hv : value.all isBare) :
    parsePair (key ++ '=' :: value) = some (key, value) := by
  have hsemi : ';' ∉ key ++ '=' :: value := by
    simp [not_mem_of_bare hk (d := ';') (by decide), not_mem_of_bare hv (d := ';') (by decide)]
  rw [parsePair, if_neg (by simp [hsemi]), cut_append (not_mem_of_bare hk (by decide)),
    unescape_bare hk, unescape_bare hv]
  rfl

/-- Pairs of bare texts are read as they were written. -/
theorem parseQuery_printQuery {values : List (Text × Text)} (hne : values ≠ [])
    (h : ∀ p ∈ values, p.1.all isBare ∧ p.2.all isBare) :
    parseQuery (printQuery values) = values := by
  have hamp : ∀ piece ∈ values.map (fun p => p.1 ++ '=' :: p.2), '&' ∉ piece := by
    intro piece hpiece
    obtain ⟨p, hp, rfl⟩ := List.mem_map.mp hpiece
    obtain ⟨hk, hv⟩ := h p hp
    simp [not_mem_of_bare hk (d := '&') (by decide), not_mem_of_bare hv (d := '&') (by decide)]
  rw [parseQuery, printQuery, List.splitOn_intercalate '&' hamp (by simpa using hne),
    List.filterMap_map]
  calc values.filterMap (fun p => parsePair (p.1 ++ '=' :: p.2))
      = values.filterMap some :=
        List.filterMap_congr fun p hp => parsePair_bare (h p hp).1 (h p hp).2
    _ = values := List.filterMap_some

end Lib.Query
