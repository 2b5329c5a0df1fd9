import Mathlib.Data.List.Basic
import Mathlib.Data.Int.Basic
import Mathlib.Tactic.Ring

/-!
# JSON texts: white space, string literals, numbers

A JSON text is a list of characters, and the tokens of RFC 8259 are read off its front.  A
string literal is kept as its *raw* text, the characters between its quotation marks, because
some readers compare raw texts and some compare decoded ones; `decodeStr` decodes the escapes.
A number is kept as its text as well.
-/

namespace Lib.Json

/-- A text, as the list of its characters. -/
abbrev Text := List Char

/-- The four characters of insignificant white space. -/
def isWs (c : Char) : Bool := c == ' ' || c == '\t' || c == '\n' || c == '\r'

/-- Drop the white space at the front. -/
def skipWs (s : Text) : Text := s.dropWhile isWs

@[simp] lemma skipWs_nil : skipWs [] = [] := rfl

lemma skipWs_cons_of_not {c : Char} {s : Text} (h : isWs c = false) :
    skipWs (c :: s) = c :: s := by
  simp [skipWs, h]

/-- What `skipWs` drops is white space. -/
lemma exists_ws_append_skipWs (s : Text) : ∃ w, s = w ++ skipWs s ∧ ∀ c ∈ w, isWs c := by
  refine ⟨s.takeWhile isWs, ?_, List.all_eq_true.mp List.all_takeWhile⟩
  simp [skipWs]

/-! ### String literals -/

/-- Split a text that follows an opening quotation mark at the mark that closes it: the raw
literal, and what comes after.  The flag says that the previous character was a backslash that
escapes this one. -/
def splitLit : Bool → Text → Option (Text × Text)
  | _, [] => none
  | true, c :: r => (splitLit false r).map fun x => (c :: x.1, x.2)
  | false, c :: r =>
    if c = '"' then some ([], r)
    else (splitLit (c == '\\') r).map fun x => (c :: x.1, x.2)

/-- A unit of a decoded literal: a character, or the four hexadecimal digits of a `\u`. -/
inductive CodeUnit where
  | char (c : Char)
  | unit (n : ℕ)
deriving DecidableEq, Repr

/-- The value of a hexadecimal digit. -/
def hexVal (c : Char) : Option ℕ :=
  if '0' ≤ c ∧ c ≤ '9' then some (c.toNat - '0'.toNat)
  else if 'a' ≤ c ∧ c ≤ 'f' then some (c.toNat - 'a'.toNat + 10)
  else if 'A' ≤ c ∧ c ≤ 'F' then some (c.toNat - 'A'.toNat + 10)
  else none

/-- The character that a short escape stands for. -/
def shortEscape (c : Char) : Option Char :=
  if c = '"' ∨ c = '\\' ∨ c = '/' then some c
  else if c = 'b' then some '\x08'
  else if c = 'f' then some '\x0c'
  else if c = 'n' then some '\n'
  else if c = 'r' then some '\r'
  else if c = 't' then some '\t'
  else none

/-- Where the decoding of a literal stands: between characters, after a backslash, or inside a
`\u` with `left + 1` digits to come and the value `acc` of the digits so far. -/
inductive DecMode where
  | plain
  | esc
  | hex (left acc : ℕ)
deriving DecidableEq, Repr

/-- The units of a raw literal; none when an escape is malformed or a control character
stands in it. -/
def units : DecMode → Text → Option (List CodeUnit)
  | .plain, [] => some []
  | _, [] => none
  | .plain, c :: r =>
    if c = '\\' then units .esc r
    else if c.toNat < 0x20 then none
    else (units .plain r).map (.char c :: ·)
  | .esc, c :: r =>
    if c = 'u' then units (.hex 3 0) r
    else (shortEscape c).bind fun d => (units .plain r).map (.char d :: ·)
  | .hex 0 acc, c :: r =>
    (hexVal c).bind fun v => (units .plain r).map (.unit (16 * acc + v) :: ·)
  | .hex (k + 1) acc, c :: r => (hexVal c).bind fun v => units (.hex k (16 * acc + v)) r

/-- A high surrogate, the first half of a pair. -/
def isHigh (n : ℕ) : Bool := 0xD800 ≤ n && n < 0xDC00

/-- A low surrogate, the second half of a pair. -/
def isLow (n : ℕ) : Bool := 0xDC00 ≤ n && n < 0xE000

/-- A high surrogate that no low one follows decodes to `lone`. -/
def flushHigh (lone : Option Char) : Option ℕ → Text → Option Text
  | none, t => some t
  | some _, t => lone.map (· :: t)

/-- A low surrogate makes a pair with the high one before it, and decodes to `lone` alone. -/
def pairLow (lone : Option Char) (n : ℕ) : Option ℕ → Text → Option Text
  | none, t => lone.map (· :: t)
  | some h, t => some (Char.ofNat (0x10000 + (h - 0xD800) * 0x400 + (n - 0xDC00)) :: t)

/-- Put the surrogate pairs together; the second argument is the high surrogate just read, if
any.  RFC 8259 leaves open what a lone surrogate means: it decodes to `lone`, and the literal
to nothing at all where `lone` is `none`. -/
def combine (lone : Option Char) : Option ℕ → List CodeUnit → Option Text
  | p, [] => flushHigh lone p []
  | p, .char c :: r => (combine lone none r).bind fun t => flushHigh lone p (c :: t)
  | p, .unit n :: r =>
    if isHigh n then (combine lone (some n) r).bind fun t => flushHigh lone p t
    else if isLow n then (combine lone none r).bind fun t => pairLow lone n p t
    else (combine lone none r).bind fun t => flushHigh lone p (Char.ofNat n :: t)

/-- The text that a raw literal stands for. -/
def decodeStr (lone : Option Char) (raw : Text) : Option Text :=
  (units .plain raw).bind (combine lone none)

/-- Read a string literal whose opening quotation mark has been read. -/
def scanStr (s : Text) : Option (Text × Text) :=
  (splitLit false s).bind fun x => if (units .plain x.1).isSome then some x else none

/-- A character that stands for itself in a literal. -/
def isPlain (c : Char) : Bool := c != '"' && c != '\\' && 0x20 ≤ c.toNat

lemma splitLit_escape (d : Char) (s : Text) :
    splitLit false ('\\' :: d :: s) = (splitLit false s).map fun x => ('\\' :: d :: x.1, x.2) := by
  simp [splitLit, Option.map_map, Function.comp_def]

lemma splitLit_append_plain {k : Text} (hk : ∀ c ∈ k, isPlain c) (s : Text) :
    splitLit false (k ++ s) = (splitLit false s).map fun x => (k ++ x.1, x.2) := by
  induction k with
  | nil => simp
  | cons c k ih =>
    have hc : isPlain c := hk c (by simp)
    simp only [isPlain, Bool.and_eq_true, bne_iff_ne, ne_eq] at hc
    obtain ⟨⟨hq, hb⟩, -⟩ := hc
    have hb' : (c == '\\') = false := by simpa using hb
    rw [List.cons_append, splitLit, if_neg hq, hb', ih fun d hd => hk d (by simp [hd])]
    simp [Option.map_map, Function.comp_def]

lemma units_plain {k : Text} (hk : ∀ c ∈ k, isPlain c) :
    units .plain k = some (k.map .char) := by
  induction k with
  | nil => rfl
  | cons c k ih =>
    have hc : isPlain c := hk c (by simp)
    simp only [isPlain, Bool.and_eq_true, bne_iff_ne, ne_eq, decide_eq_true_eq] at hc
    obtain ⟨⟨-, hb⟩, hlow⟩ := hc
    rw [units, if_neg hb, if_neg (by omega), ih fun d hd => hk d (by simp [hd])]
    simp

lemma combine_char (lone : Option Char) (k : Text) :
    combine lone none (k.map .char) = some k := by
  induction k with
  | nil => rfl
  | cons c k ih => simp [combine, ih, flushHigh]

/-- Where lone surrogates decode to something, every unit does. -/
lemma combine_isSome (c : Char) (p : Option ℕ) (us : List CodeUnit) :
    (combine (some c) p us).isSome := by
  induction us generalizing p with
  | nil => cases p <;> rfl
  | cons u us ih =>
    obtain ⟨t, ht⟩ := Option.isSome_iff_exists.mp (ih none)
    cases u with
    | char d =>
      rw [combine, ht]
      cases p <;> rfl
    | unit n =>
      obtain ⟨t', ht'⟩ := Option.isSome_iff_exists.mp (ih (some n))
      rw [combine, ht, ht']
      cases p <;> split_ifs <;> rfl

/-- A literal without escapes decodes to itself. -/
lemma decodeStr_plain {k : Text} (hk : ∀ c ∈ k, isPlain c) (lone : Option Char) :
    decodeStr lone k = some k := by
  simp [decodeStr, units_plain hk, combine_char]

lemma scanStr_plain {k : Text} (hk : ∀ c ∈ k, isPlain c) (r : Text) :
    scanStr (k ++ '"' :: r) = some (k, r) := by
  rw [scanStr, splitLit_append_plain hk]
  simp [splitLit, units_plain hk]

/-- A literal without a backslash decodes to itself, if it decodes at all. -/
lemma decodeStr_of_no_escape {lone : Option Char} {raw t : Text}
    (h : decodeStr lone raw = some t) (hb : '\\' ∉ raw) : t = raw := by
  have hunits : ∀ (s : Text) (us : List CodeUnit), units .plain s = some us → '\\' ∉ s →
      us = s.map .char := by
    intro s
    induction s with
    | nil =>
      intro us hus _
      exact (Option.some.inj hus).symm
    | cons c s ih =>
      intro us hus hs
      simp only [List.mem_cons, not_or] at hs
      rw [units, if_neg (Ne.symm hs.1)] at hus
      split_ifs at hus
      obtain ⟨us', hus', rfl⟩ := Option.map_eq_some_iff.mp hus
      rw [ih us' hus' hs.2, List.map_cons]
  rw [decodeStr, Option.bind_eq_some_iff] at h
  obtain ⟨us, hus, hc⟩ := h
  rw [hunits raw us hus hb, combine_char] at hc
  exact (Option.some.inj hc).symm

/-! ### The length of a decoded literal -/

lemma flushHigh_length {lone : Option Char} {p : Option ℕ} {t t' : Text}
    (h : flushHigh lone p t = some t') : t'.length = t.length + p.toList.length := by
  cases p with
  | none => simp_all [flushHigh]
  | some n =>
    simp only [flushHigh, Option.map_eq_some_iff] at h
    obtain ⟨c, -, rfl⟩ := h
    simp

lemma pairLow_length {lone : Option Char} {n : ℕ} {p : Option ℕ} {t t' : Text}
    (h : pairLow lone n p t = some t') : t'.length = t.length + 1 := by
  cases p with
  | none =>
    simp only [pairLow, Option.map_eq_some_iff] at h
    obtain ⟨c, -, rfl⟩ := h
    simp
  | some m =>
    simp only [pairLow, Option.some.injEq] at h
    simp [← h]

lemma combine_length_le {lone : Option Char} {us : List CodeUnit} {p : Option ℕ} {t : Text}
    (h : combine lone p us = some t) : t.length ≤ us.length + p.toList.length := by
  -- along the units; a high half that waits counts as one
  induction us generalizing p t with
  | nil =>
    have := flushHigh_length (p := p) (t := []) h
    simp only [List.length_nil] at this ⊢
    omega
  | cons u us ih =>
    cases u with
    | char c =>
      simp only [combine, Option.bind_eq_some_iff] at h
      obtain ⟨t₁, h₁, h₂⟩ := h
      have hlen := ih h₁
      have := flushHigh_length h₂
      simp only [List.length_cons, Option.toList_none, List.length_nil] at hlen this ⊢
      omega
    | unit n =>
      rw [combine] at h
      split at h
      · simp only [Option.bind_eq_some_iff] at h
        obtain ⟨t₁, h₁, h₂⟩ := h
        have hlen := ih h₁
        have := flushHigh_length h₂
        simp only [List.length_cons, Option.toList_some, List.length_nil] at hlen this ⊢
        omega
      · split at h
        · simp only [Option.bind_eq_some_iff] at h
          obtain ⟨t₁, h₁, h₂⟩ := h
          have hlen := ih h₁
          have := pairLow_length h₂
          simp only [List.length_cons, Option.toList_none, List.length_nil] at hlen this ⊢
          omega
        · simp only [Option.bind_eq_some_iff] at h
          obtain ⟨t₁, h₁, h₂⟩ := h
          have hlen := ih h₁
          have := flushHigh_length h₂
          simp only [List.length_cons, Option.toList_none, List.length_nil] at hlen this ⊢
          omega

/-- Each unit comes from at least one character. -/
lemma units_length_le {m : DecMode} {s : Text} {us : List CodeUnit} (h : units m s = some us) :
    us.length ≤ s.length := by
  induction m, s using units.induct generalizing us with
  | case1 => simp_all [units]
  | case2 m hm => simp_all [units]
  | case3 r ih =>
    simp only [units, if_true] at h
    have := ih h
    simp only [List.length_cons]
    omega
  | case4 c r hb hc => simp [units, hb, hc] at h
  | case5 c r hb hc ih =>
    simp only [units, hb, hc, if_false, Option.map_eq_some_iff] at h
    obtain ⟨us', h', rfl⟩ := h
    simpa using ih h'
  | case6 r ih =>
    simp only [units, if_true] at h
    have := ih h
    simp only [List.length_cons]
    omega
  | case7 c r hu ih =>
    simp only [units, hu, if_false, Option.bind_eq_some_iff, Option.map_eq_some_iff] at h
    obtain ⟨d, -, us', h', rfl⟩ := h
    simpa using ih h'
  | case8 acc c r ih =>
    simp only [units, Option.bind_eq_some_iff, Option.map_eq_some_iff] at h
    obtain ⟨v, -, us', h', rfl⟩ := h
    simpa using ih h'
  | case9 k acc c r ih =>
    simp only [units, Option.bind_eq_some_iff] at h
    obtain ⟨v, -, h'⟩ := h
    have := ih v h'
    simp only [List.length_cons]
    omega

/-- An escape takes more characters than it stands for. -/
lemma units_length_lt {s : Text} {us : List CodeUnit} (h : units .plain s = some us)
    (hb : '\\' ∈ s) : us.length < s.length := by
  induction s generalizing us with
  | nil => simp at hb
  | cons c s ih =>
    rw [units] at h
    split at h
    · have := units_length_le h
      simp only [List.length_cons]
      omega
    · rename_i hc
      split at h
      · simp at h
      · simp only [Option.map_eq_some_iff] at h
        obtain ⟨us', h', rfl⟩ := h
        have hb' : '\\' ∈ s := by
          rcases List.mem_cons.mp hb with rfl | hb
          · exact absurd rfl hc
          · exact hb
        simpa using ih h' hb'

lemma decodeStr_length_lt {lone : Option Char} {raw t : Text}
    (h : decodeStr lone raw = some t) (hb : '\\' ∈ raw) : t.length < raw.length := by
  simp only [decodeStr, Option.bind_eq_some_iff] at h
  obtain ⟨us, hu, hc⟩ := h
  exact lt_of_le_of_lt (by simpa using combine_length_le hc) (units_length_lt hu hb)

/-! ### Numbers -/

/-- Where a number stands, by the grammar of RFC 8259. -/
inductive NumMode where
  | start | minus | zero | int | point | frac | exp | expSign | expDigits
deriving DecidableEq, Repr

/-- The place in a number after one more character. -/
def NumMode.next : NumMode → Char → Option NumMode
  | .start, c =>
    if c = '-' then some .minus else if c = '0' then some .zero
    else if c.isDigit then some .int else none
  | .minus, c => if c = '0' then some .zero else if c.isDigit then some .int else none
  | .zero, c => if c = '.' then some .point else if c = 'e' ∨ c = 'E' then some .exp else none
  | .int, c =>
    if c.isDigit then some .int else if c = '.' then some .point
    else if c = 'e' ∨ c = 'E' then some .exp else none
  | .point, c => if c.isDigit then some .frac else none
  | .frac, c =>
    if c.isDigit then some .frac else if c = 'e' ∨ c = 'E' then some .exp else none
  | .exp, c =>
    if c = '+' ∨ c = '-' then some .expSign else if c.isDigit then some .expDigits else none
  | .expSign, c => if c.isDigit then some .expDigits else none
  | .expDigits, c => if c.isDigit then some .expDigits else none

/-- The places at which a number may end. -/
def NumMode.final : NumMode → Bool
  | .zero | .int | .frac | .expDigits => true
  | _ => false

/-- The text completes a number that has got as far as the given place. -/
def isNumberFrom : NumMode → Text → Bool
  | m, [] => m.final
  | m, c :: s => match m.next c with
    | some m' => isNumberFrom m' s
    | none => false

/-- A character that can stand in a number. -/
def isNumChar (c : Char) : Bool :=
  c.isDigit || c == '-' || c == '+' || c == '.' || c == 'e' || c == 'E'

/-- Read a number: as many of its characters as follow one another must make one. -/
def scanNum (s : Text) : Option Text :=
  if isNumberFrom .start (s.takeWhile isNumChar) then some (s.dropWhile isNumChar) else none

/-- The value of a text of decimal digits. -/
def natOf (ds : Text) : Option ℕ :=
  if ds ≠ [] ∧ ds.all Char.isDigit then some (Nat.ofDigitChars 10 ds 0) else none

/-- The value of a number without fraction and exponent. -/
def intOf : Text → Option ℤ
  | '-' :: ds => (natOf ds).map fun n : ℕ => -(n : ℤ)
  | ds => (natOf ds).map fun n : ℕ => (n : ℤ)

/-- The decimal text of an integer. -/
def showInt (i : ℤ) : Text :=
  if i < 0 then '-' :: Nat.toDigits 10 i.natAbs else Nat.toDigits 10 i.natAbs

lemma isDigit_of_mem_toDigits {n : ℕ} {c : Char} (h : c ∈ Nat.toDigits 10 n) : c.isDigit :=
  Nat.isDigit_of_mem_toDigits (by omega) (by omega) h

lemma natOf_toDigits (n : ℕ) : natOf (Nat.toDigits 10 n) = some n := by
  have hall : (Nat.toDigits 10 n).all Char.isDigit :=
    List.all_eq_true.mpr fun c hc => isDigit_of_mem_toDigits hc
  rw [natOf, if_pos ⟨Nat.toDigits_ne_nil, hall⟩, Nat.ofDigitChars_ten_toDigits]

lemma ne_minus_of_isDigit {c : Char} (h : c.isDigit) : c ≠ '-' := by
  rintro rfl
  exact absurd h (by decide)

/-- Reading a printed integer gives it back. -/
theorem intOf_showInt (i : ℤ) : intOf (showInt i) = some i := by
  by_cases hi : i < 0
  · rw [showInt, if_pos hi, intOf, natOf_toDigits]
    simp only [Option.map_some, Option.some.injEq]
    omega
  · rw [showInt, if_neg hi]
    cases hd : Nat.toDigits 10 i.natAbs with
    | nil => exact absurd hd Nat.toDigits_ne_nil
    | cons c ds =>
      have hc : c ≠ '-' := ne_minus_of_isDigit
        (isDigit_of_mem_toDigits (n := i.natAbs) (by rw [hd]; exact List.mem_cons_self))
      have hval := natOf_toDigits i.natAbs
      rw [hd] at hval
      rw [intOf, hval]
      · simp only [Option.map_some, Option.some.injEq]
        omega
      · intro ds' h
        exact hc (List.cons.inj h).1

lemma isNumberFrom_digits {s : Text} (hs : ∀ c ∈ s, c.isDigit) : isNumberFrom .int s := by
  induction s with
  | nil => rfl
  | cons c s ih =>
    have hc : c.isDigit := hs c (by simp)
    simp only [isNumberFrom, NumMode.next, hc, if_true]
    exact ih fun d hd => hs d (by simp [hd])

/-- The digits of a number other than zero do not begin with a zero. -/
lemma head_toDigits_ne_zero {n : ℕ} (hn : 0 < n) {c : Char} {ds : Text}
    (h : Nat.toDigits 10 n = c :: ds) : c ≠ '0' := by
  induction n using Nat.strong_induction_on generalizing ds with
  | _ n ih =>
    by_cases hlt : n < 10
    · rw [Nat.toDigits_of_lt_base hlt] at h
      obtain ⟨rfl, -⟩ := List.cons.inj h
      have hval := Nat.toNat_digitChar_sub_48_of_lt_ten hlt
      intro h0
      rw [h0] at hval
      simp only [Char.reduceToNat] at hval
      omega
    · rw [Nat.toDigits_of_base_le (by omega) (by omega)] at h
      cases hq : Nat.toDigits 10 (n / 10) with
      | nil => exact absurd hq Nat.toDigits_ne_nil
      | cons c' ds' =>
        rw [hq] at h
        obtain ⟨rfl, -⟩ := List.cons.inj h
        exact ih (n / 10) (by omega) (by omega) hq

lemma isNumberFrom_toDigits (n : ℕ) {m : NumMode} (hm : m = .start ∨ m = .minus) :
    isNumberFrom m (Nat.toDigits 10 n) := by
  rcases Nat.eq_zero_or_pos n with rfl | hn
  · rcases hm with rfl | rfl <;> decide
  · cases hd : Nat.toDigits 10 n with
    | nil => exact absurd hd Nat.toDigits_ne_nil
    | cons c ds =>
      have hmem : ∀ d ∈ c :: ds, d.isDigit := by
        intro d hd'
        exact isDigit_of_mem_toDigits (n := n) (by rw [hd]; exact hd')
      have hc : c.isDigit := hmem c (by simp)
      have h0 : c ≠ '0' := head_toDigits_ne_zero hn hd
      have hds : isNumberFrom .int ds := isNumberFrom_digits fun d hd' => hmem d (by simp [hd'])
      rcases hm with rfl | rfl
      · simpa [isNumberFrom, NumMode.next, ne_minus_of_isDigit hc, h0, hc] using hds
      · simpa [isNumberFrom, NumMode.next, h0, hc] using hds

lemma isNumber_showInt (i : ℤ) : isNumberFrom .start (showInt i) := by
  rw [showInt]
  split
  · exact isNumberFrom_toDigits _ (Or.inr rfl)
  · exact isNumberFrom_toDigits _ (Or.inl rfl)

lemma isNumChar_of_mem_showInt {i : ℤ} {c : Char} (h : c ∈ showInt i) : isNumChar c := by
  rw [showInt] at h
  split at h
  · rcases List.mem_cons.mp h with rfl | h
    · decide
    · simp [isNumChar, isDigit_of_mem_toDigits h]
  · simp [isNumChar, isDigit_of_mem_toDigits h]

end Lib.Json
