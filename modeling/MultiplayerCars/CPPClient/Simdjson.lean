import MultiplayerCars.Lib.Json.Literals

/-!
# What the client reads with simdjson

The two parsers that `main.cpp` uses.  The DOM parser reads a whole text first, and fails where
a string literal does not decode or a number does not fit; its look-ups compare decoded keys and
take the first that matches.  The on-demand parser, with which the relay looks at the type of a
message, compares raw keys and looks at nothing else.  What the messages of the server need of
either is stated for any parser: that it reads a printed object.
-/

namespace MultiplayerCars.CPPClient

open Lib.Json

/-! ### Numbers -/

/-- Two to the power of 64, which bounds a `uint64_t`. -/
def uint64Bound : ℤ := 18446744073709551616

/-- Two to the power of 63, which bounds an `int64_t`. -/
def int64Bound : ℤ := 9223372036854775808

/-- The conversion to a 32-bit `int`. -/
def toInt (i : ℤ) : ℤ := (i + 2147483648) % 4294967296 - 2147483648

/-- The least number that rounds to infinity as a `double`. -/
def doubleBound : ℕ := Nat.pow 2 1024 - Nat.pow 2 970

/-- The value of an exponent. -/
def exponentOf : Text → ℤ
  | '-' :: ds => -(Nat.ofDigitChars 10 ds 0 : ℤ)
  | '+' :: ds => Nat.ofDigitChars 10 ds 0
  | ds => Nat.ofDigitChars 10 ds 0

/-- `m * 10 ^ e` is finite as a `double`; `m` has at most `digits` digits. -/
def isFinite (m digits : ℕ) (e : ℤ) : Bool :=
  if 309 ≤ e then m == 0
  else if 0 ≤ e then decide (m * Nat.pow 10 e.toNat < doubleBound)
  else if (digits : ℤ) ≤ -e then true
  else decide (m < doubleBound * Nat.pow 10 (-e).toNat)

/-- A number with a fraction or an exponent is finite. -/
def floatFits (t : Text) : Bool :=
  let u := t.dropWhile (· == '-')
  let mantissa := u.takeWhile fun c => c != 'e' && c != 'E'
  let exponent := (u.dropWhile fun c => c != 'e' && c != 'E').drop 1
  let whole := mantissa.takeWhile (· != '.')
  let fraction := (mantissa.dropWhile (· != '.')).drop 1
  isFinite (Nat.ofDigitChars 10 (whole ++ fraction) 0) (whole ++ fraction).length
    (exponentOf exponent - fraction.length)

/-- The parser can represent the number. -/
def numberFits (t : Text) : Bool :=
  match intOf t with
  | some i => decide (-int64Bound ≤ i ∧ i < uint64Bound)
  | none => floatFits t

/-- What stands between the string literals of a text, the quotation marks included. -/
def unquoted : Lex → Text → Text
  | _, [] => []
  | m, c :: s => if m = .out then c :: unquoted (m.next c) s else unquoted (m.next c) s

/-- The longest pieces of a text, between its literals, of characters of numbers. -/
def numberPieces (s : Text) : List Text := (unquoted .out s).splitOnP fun c => !isNumChar c

/-- The piece is a number, not a part of `true` or `false`. -/
def beginsNumber : Text → Bool
  | [] => false
  | c :: _ => c == '-' || c.isDigit

/-- The numbers of a JSON text. -/
def numbers (s : Text) : List Text := (numberPieces s).filter beginsNumber

/-! ### The DOM parser -/

/-- `dom::object`: the members of the text. -/
abbrev Object := List Field

/-- `dom::parser::parse` of a text whose root is to be an object.  A message of the server is
too short to nest deeper than the parser allows. -/
def domParse (s : Text) : Option Object :=
  (parseObject s).filter fun _ =>
    (lits s).all (fun k => (decodeStr none k).isSome) && (numbers s).all numberFits

/-- `operator[]`. -/
def Object.at (o : Object) (key : Text) : Option Text :=
  (o.find? fun f => decodeStr none f.key == some key).map Field.value

def getString (v : Text) : Option Text := (strLit v).bind (decodeStr none)

def getUint64 (v : Text) : Option ℤ := (intOf v).filter fun i => decide (0 ≤ i ∧ i < uint64Bound)

def getInt64 (v : Text) : Option ℤ :=
  (intOf v).filter fun i => decide (-int64Bound ≤ i ∧ i < int64Bound)

namespace Object

/-- The member `key`, when there is one and it is a string. -/
def string (o : Object) (key : String) : Option Text := (o.at key.toList).bind getString

/-- The member `key`, when there is one and it is a `uint64_t`. -/
def uint64 (o : Object) (key : String) : Option ℤ := (o.at key.toList).bind getUint64

/-- The member `key`, when there is one and it is an `int64_t`. -/
def int64 (o : Object) (key : String) : Option ℤ := (o.at key.toList).bind getInt64

end Object

/-! ### The on-demand parser -/

/-- `get` with a `uint64_t` on a value that is not parsed yet: it takes no sign, not even that
of `-0`. -/
def getUnsigned (v : Text) : Option ℤ := if v.head? = some '-' then none else getUint64 v

/-- `document["Type"].get(type)` with a `uint64_t`. -/
def onDemandType (s : Text) : Option ℤ :=
  (parseObject s).bind fun o =>
    (o.find? fun f => f.key == "Type".toList).bind fun f => getUnsigned f.value

/-! ### Printed objects -/

lemma unquoted_append {m : Lex} {a : Text} (h : m.run a = .out) (b : Text) :
    unquoted m (a ++ b) = unquoted m a ++ unquoted .out b := by
  induction a generalizing m with
  | nil =>
    rw [Lex.run_nil] at h
    subst h
    rfl
  | cons c a ih =>
    rw [Lex.run_cons] at h
    rw [List.cons_append, unquoted, unquoted, ih h]
    split_ifs <;> rfl

lemma numberPieces_append {a : Text} (ha : Closed a) {c : Char} (hc : isNumChar c = false)
    (hq : c ≠ '"') (b : Text) : numberPieces (a ++ c :: b) = numberPieces a ++ numberPieces b := by
  have hn : Lex.out.next c = .out := by simp [Lex.next, hq]
  rw [numberPieces, unquoted_append ha, unquoted, if_pos rfl, hn,
    List.splitOnP_append_cons _ _ (by simpa using hc)]
  rfl

/-- A text that the DOM parser takes as a value: its literals decode and its numbers fit. -/
structure DomValue (v : Text) : Prop where
  closed : Closed v
  lits : ∀ k ∈ lits v, (decodeStr none k).isSome
  numbers : ∀ t ∈ numbers v, numberFits t

lemma domValue_nil : DomValue [] where
  closed := rfl
  lits := by simp [Lib.Json.lits, segs]
  numbers := by simp [CPPClient.numbers, numberPieces, unquoted, beginsNumber]

/-- A character that stands between two parts of a text and belongs to neither. -/
lemma DomValue.append {a b : Text} (ha : DomValue a) (hb : DomValue b) {c : Char}
    (hc : isNumChar c = false) (hq : c ≠ '"') : DomValue (a ++ c :: b) where
  closed := by
    refine ha.closed.append ?_
    rw [Closed, Lex.run_cons, show Lex.out.next c = .out by simp [Lex.next, hq]]
    exact hb.closed
  lits := by
    have hlits : Lib.Json.lits (c :: b) = Lib.Json.lits b := by
      rw [Lib.Json.lits, segs, if_neg hq, Lib.Json.lits]
    intro k hk
    rw [lits_append ha.closed, hlits] at hk
    rcases List.mem_append.mp hk with hk | hk
    · exact ha.lits k hk
    · exact hb.lits k hk
  numbers := by
    intro t ht
    rw [CPPClient.numbers, numberPieces_append ha.closed hc hq, List.filter_append] at ht
    rcases List.mem_append.mp ht with ht | ht
    · exact ha.numbers t ht
    · exact hb.numbers t ht

lemma unquoted_splitLit {e : Bool} {s raw r : Text} (h : splitLit e s = some (raw, r)) :
    unquoted (lexOf e) s = unquoted .out r := by
  induction s generalizing e raw with
  | nil => cases e <;> simp [splitLit] at h
  | cons c s ih =>
    cases e with
    | true =>
      simp only [splitLit, Option.map_eq_some_iff, Prod.mk.injEq] at h
      obtain ⟨x, hx, -, rfl⟩ := h
      exact ih (e := false) hx
    | false =>
      rw [splitLit] at h
      split_ifs at h with hq
      · simp only [Option.some.injEq, Prod.mk.injEq] at h
        obtain ⟨-, rfl⟩ := h
        subst hq
        rfl
      · simp only [Option.map_eq_some_iff, Prod.mk.injEq] at h
        obtain ⟨x, hx, -, rfl⟩ := h
        have hn : Lex.str.next c = lexOf (c == '\\') := by
          by_cases hb : c = '\\' <;> simp [Lex.next, lexOf, hq, hb]
        rw [show lexOf false = .str from rfl, unquoted, if_neg (by simp), hn]
        exact ih hx

lemma domValue_quote {k : Text} (hk : IsKey k) (hd : (decodeStr none k).isSome) :
    DomValue (quote k) := by
  have hscan := hk []
  obtain ⟨-, hclosed, hlits⟩ := scanStr_spec hscan
  refine ⟨hclosed, ?_, ?_⟩
  · rw [hlits]
    simpa using hd
  · have hsplit : splitLit false (k ++ ['"']) = some (k, []) := by
      rw [scanStr, Option.bind_eq_some_iff] at hscan
      obtain ⟨x, hx, hif⟩ := hscan
      split_ifs at hif
      rw [hx, Option.some.inj hif]
    have hun : unquoted .out (quote k) = ['"'] := by
      have hstr : unquoted .str (k ++ ['"']) = [] := unquoted_splitLit hsplit
      rw [quote, unquoted, if_pos rfl, show Lex.out.next '"' = .str from rfl, hstr]
    intro t ht
    rw [numbers, numberPieces, hun] at ht
    exact absurd ht (by simp [List.splitOnP_cons_eq_if_modifyHead, isNumChar, beginsNumber])

lemma domValue_showInt {i : ℤ} (h : -int64Bound ≤ i ∧ i < uint64Bound) :
    DomValue (showInt i) := by
  have hnum : ∀ c ∈ showInt i, isNumChar c := fun c hc => isNumChar_of_mem_showInt hc
  have hquote : ∀ c ∈ showInt i, c ≠ '"' := by
    rintro c hc rfl
    exact absurd (hnum _ hc) (by decide)
  have hun : ∀ s : Text, (∀ c ∈ s, c ≠ '"') → unquoted .out s = s := by
    intro s hs
    induction s with
    | nil => rfl
    | cons c s ih =>
      have hc : c ≠ '"' := hs c (by simp)
      rw [unquoted, if_pos rfl, show Lex.out.next c = .out by simp [Lex.next, hc],
        ih fun d hd => hs d (by simp [hd])]
  refine ⟨closed_of_no_quote hquote, ?_, ?_⟩
  · have hlits : ∀ s : Text, (∀ c ∈ s, c ≠ '"') → lits s = [] := by
      intro s hs
      induction s with
      | nil => rfl
      | cons c s ih =>
        rw [lits, segs, if_neg (hs c (by simp)), ← lits, ih fun d hd => hs d (by simp [hd])]
    simp [hlits _ hquote]
  · intro t ht
    have hpieces : numberPieces (showInt i) = [showInt i] := by
      rw [numberPieces, hun _ hquote]
      exact List.splitOnP_eq_singleton fun c hc => by simp [hnum c hc]
    rw [numbers, hpieces] at ht
    have ht' : t = showInt i := by simpa using (List.mem_filter.mp ht).1
    rw [ht', numberFits, intOf_showInt]
    simpa using h

lemma domValue_bool (b : Bool) :
    DomValue (if b then "true".toList else "false".toList) := by
  have hcheck : ∀ s : Text, Closed s → lits s = [] → numbers s = [] → DomValue s := by
    intro s hc hl hn
    exact ⟨hc, by simp [hl], by simp [hn]⟩
  cases b
  · exact hcheck _ (by decide) (by decide) (by decide)
  · exact hcheck _ (by decide) (by decide) (by decide)

/-- A member that the DOM parser takes. -/
structure DomField (f : Field) : Prop where
  wf : f.WF
  key : (decodeStr none f.key).isSome
  value : DomValue f.value

lemma domValue_printMembers {fs : List Field} (h : ∀ f ∈ fs, DomField f) :
    DomValue (printMembers fs) := by
  induction fs with
  | nil => exact domValue_nil.append domValue_nil (c := '}') (by decide) (by decide)
  | cons f fs ih =>
    have hf : DomField f := h f (by simp)
    have hkey : DomValue (quote f.key) := domValue_quote hf.wf.key hf.key
    cases fs with
    | nil =>
      exact hkey.append (hf.value.append domValue_nil (c := '}') (by decide) (by decide))
        (by decide) (by decide)
    | cons g fs =>
      have hrest : DomValue (printMembers (g :: fs)) := ih fun f' hf' => h f' (by simp [hf'])
      exact hkey.append (hf.value.append hrest (c := ',') (by decide) (by decide))
        (by decide) (by decide)

/-- What is relied on of a DOM parser: it reads a printed object back. -/
def ReadsObjects (parse : Text → Option Object) : Prop :=
  ∀ fs : List Field, (∀ f ∈ fs, DomField f) → parse (printObject fs) = some fs

/-- What is relied on of the on-demand parser: it gives the member `Type` of a printed object, and
nothing for an empty text. -/
structure ReadsType (typeOf : Text → Option ℤ) : Prop where
  empty : typeOf [] = none
  printed : ∀ fs : List Field, (∀ f ∈ fs, f.WF) → typeOf (printObject fs)
    = (fs.find? fun f => f.key == "Type".toList).bind fun f => getUnsigned f.value

theorem readsObjects_domParse : ReadsObjects domParse := by
  intro fs h
  have hv : DomValue (printObject fs) :=
    domValue_nil.append (domValue_printMembers h) (c := '{') (by decide) (by decide)
  rw [domParse, parseObject_printObject fun f hf => (h f hf).wf]
  have hlits : (lits (printObject fs)).all fun k => (decodeStr none k).isSome :=
    List.all_eq_true.mpr hv.lits
  have hnums : (numbers (printObject fs)).all numberFits := List.all_eq_true.mpr hv.numbers
  simp [Option.filter, hlits, hnums]

theorem readsType_onDemandType : ReadsType onDemandType where
  empty := rfl
  printed fs h := by
    rw [onDemandType, parseObject_printObject h]
    rfl

/-! ### The members of a printed object -/

lemma Object.at_cons {k : Text} (hk : k.all isPlain) (v : Text) (o : Object) (key : Text) :
    Object.at (⟨k, v⟩ :: o) key = if k = key then some v else Object.at o key := by
  have hdec : decodeStr none k = some k := decodeStr_plain (List.all_eq_true.mp hk) none
  rw [Object.at, List.find?_cons, hdec]
  by_cases hkey : k = key
  · subst hkey
    simp
  · have hb : (some k == some key) = false := by simpa using hkey
    rw [hb, if_neg hkey]
    rfl

lemma Object.string_of_at {o : Object} {key : String} {raw t : Text}
    (h : o.at key.toList = some (quote raw)) (hk : IsKey raw) (hd : decodeStr none raw = some t) :
    o.string key = some t := by
  rw [Object.string, h, Option.bind_some, getString, strLit_quote hk]
  exact hd

lemma Object.uint64_of_at {o : Object} {key : String} {i : ℤ}
    (h : o.at key.toList = some (showInt i)) (hi : 0 ≤ i ∧ i < uint64Bound) :
    o.uint64 key = some i := by
  rw [Object.uint64, h, Option.bind_some, getUint64, intOf_showInt]
  simp [Option.filter, hi]

lemma Object.int64_of_at {o : Object} {key : String} {i : ℤ}
    (h : o.at key.toList = some (showInt i)) (hi : -int64Bound ≤ i ∧ i < int64Bound) :
    o.int64 key = some i := by
  rw [Object.int64, h, Option.bind_some, getInt64, intOf_showInt]
  simp [Option.filter, hi]

/-- A number that is not negative has no sign. -/
lemma getUnsigned_showInt {i : ℤ} (hi : 0 ≤ i ∧ i < uint64Bound) :
    getUnsigned (showInt i) = some i := by
  have hsign : (showInt i).head? ≠ some '-' := by
    rw [showInt, if_neg (by omega)]
    intro h
    obtain ⟨ds, hds⟩ := List.head?_eq_some_iff.mp h
    have hdigit := isDigit_of_mem_toDigits (n := i.natAbs) (c := '-') (by rw [hds]; simp)
    exact absurd hdigit (by decide)
  rw [getUnsigned, if_neg hsign, getUint64, intOf_showInt]
  simp [Option.filter, hi]

end MultiplayerCars.CPPClient
