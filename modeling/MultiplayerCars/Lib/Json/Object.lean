import MultiplayerCars.Lib.Json.Lexical

/-!
# JSON values and objects

A reader of this file's kind does not build a tree.  It checks that a text is a JSON value, and
splits an object into its members, each the raw text of its key and the text of its value as
they stand in the source.  That is what a decoder needs which hands part of a message on
unread, and what lets two decoders with different rules for keys read one text.

The recursion is on a fuel argument that bounds nesting and members together; the length of
the text is always enough.
-/

namespace Lib.Json

/-- The rest of a text that begins with the given word. -/
def dropWord (w s : Text) : Option Text := if w <+: s then some (s.drop w.length) else none

/-- Read the key of a member and the colon after it. -/
def scanKey : Text → Option (Text × Text)
  | [] => none
  | c :: s =>
    if c = '"' then
      (scanStr s).bind fun x =>
        match skipWs x.2 with
        | [] => none
        | c' :: r => if c' = ':' then some (x.1, skipWs r) else none
    else none

mutual

/-- Read a value from the front of a text: what is left of the text after it. -/
def scanValue : ℕ → Text → Option Text
  | 0, _ => none
  | _ + 1, [] => none
  | n + 1, c :: r =>
    if c = '"' then (scanStr r).map Prod.snd
    else if c = '{' then
      if (skipWs r).head? = some '}' then some (skipWs r).tail else scanMembers n (skipWs r)
    else if c = '[' then
      if (skipWs r).head? = some ']' then some (skipWs r).tail else scanElems n (skipWs r)
    else if c = 't' then dropWord ['r', 'u', 'e'] r
    else if c = 'f' then dropWord ['a', 'l', 's', 'e'] r
    else if c = 'n' then dropWord ['u', 'l', 'l'] r
    else scanNum (c :: r)

/-- Read the members of an object, up to the brace that closes it. -/
def scanMembers : ℕ → Text → Option Text
  | 0, _ => none
  | n + 1, s =>
    (scanKey s).bind fun x => (scanValue n x.2).bind fun r =>
      match skipWs r with
      | [] => none
      | c :: r' =>
        if c = ',' then scanMembers n (skipWs r') else if c = '}' then some r' else none

/-- Read the elements of an array, up to the bracket that closes it. -/
def scanElems : ℕ → Text → Option Text
  | 0, _ => none
  | n + 1, s =>
    (scanValue n s).bind fun r =>
      match skipWs r with
      | [] => none
      | c :: r' =>
        if c = ',' then scanElems n (skipWs r') else if c = ']' then some r' else none

end

/-- A member of an object: the raw text of its key and the text of its value. -/
structure Field where
  key : Text
  value : Text
deriving DecidableEq, Repr

/-- Read the members of an object like `scanMembers`, and keep them. -/
def parseMembers : ℕ → Text → Option (List Field × Text)
  | 0, _ => none
  | n + 1, s =>
    (scanKey s).bind fun x => (scanValue n x.2).bind fun r =>
      let f : Field := ⟨x.1, x.2.take (x.2.length - r.length)⟩
      match skipWs r with
      | [] => none
      | c :: r' =>
        if c = ',' then (parseMembers n (skipWs r')).map fun y => (f :: y.1, y.2)
        else if c = '}' then some ([f], r') else none

/-- The members of a text that is a JSON object. -/
def parseObject (s : Text) : Option (List Field) :=
  match skipWs s with
  | [] => none
  | c :: r =>
    if c = '{' then
      if (skipWs r).head? = some '}' then
        if skipWs (skipWs r).tail = [] then some [] else none
      else
        (parseMembers s.length (skipWs r)).bind fun x => if skipWs x.2 = [] then some x.1 else none
    else none

/-- The raw literal of a value that is a string. -/
def strLit : Text → Option Text
  | [] => none
  | c :: s =>
    if c = '"' then (scanStr s).bind fun x => if x.2 = [] then some x.1 else none else none

/-! ### Printing -/

/-- The text of a string literal with the given raw contents. -/
def quote (raw : Text) : Text := '"' :: (raw ++ ['"'])

/-- The members of an object, as text, up to and including the closing brace. -/
def printMembers : List Field → Text
  | [] => ['}']
  | [f] => quote f.key ++ ':' :: (f.value ++ ['}'])
  | f :: fs => quote f.key ++ ':' :: (f.value ++ ',' :: printMembers fs)

/-- The compact text of an object. -/
def printObject (fs : List Field) : Text := '{' :: printMembers fs

/-- The text is a literal that reads back as itself. -/
def IsKey (k : Text) : Prop := ∀ r, scanStr (k ++ '"' :: r) = some (k, r)

/-- The text is a value: it is read to its end, whatever comes after it that cannot be taken
for a part of a number. -/
structure IsValue (v : Text) : Prop where
  head : ∃ c s, v = c :: s ∧ isWs c = false ∧ c ≠ '}' ∧ c ≠ ']'
  scan : ∀ n r, v.length < n → (∀ c ∈ r.head?, isNumChar c = false) →
    scanValue n (v ++ r) = some r

/-- It decodes to something, where lone surrogates do. -/
lemma IsKey.decodes {k : Text} (hk : IsKey k) (c : Char) : (decodeStr (some c) k).isSome := by
  have hscan := hk []
  rw [scanStr, Option.bind_eq_some_iff] at hscan
  obtain ⟨x, -, hif⟩ := hscan
  split_ifs at hif with hunits
  rw [Option.some.inj hif] at hunits
  obtain ⟨us, hus⟩ := Option.isSome_iff_exists.mp hunits
  rw [decodeStr, hus, Option.bind_some]
  exact combine_isSome c none us

lemma isKey_of_plain {k : Text} (hk : ∀ c ∈ k, isPlain c) : IsKey k := scanStr_plain hk

lemma isValue_quote {k : Text} (hk : IsKey k) : IsValue (quote k) where
  head := ⟨'"', _, rfl, by decide, by decide, by decide⟩
  scan := by
    intro n r hn _
    obtain ⟨n, rfl⟩ : ∃ m, n = m + 1 := ⟨n - 1, by omega⟩
    simp [quote, scanValue, hk r]

lemma isValue_showInt (i : ℤ) : IsValue (showInt i) where
  head := by
    cases hs : showInt i with
    | nil =>
      have := isNumber_showInt i
      rw [hs] at this
      exact absurd this (by decide)
    | cons c s =>
      have hc : isNumChar c := isNumChar_of_mem_showInt (i := i) (by rw [hs]; simp)
      refine ⟨c, s, rfl, ?_, ?_, ?_⟩
      · rw [Bool.eq_false_iff]
        intro hw
        simp only [isWs, Bool.or_eq_true, beq_iff_eq] at hw
        rcases hw with ((rfl | rfl) | rfl) | rfl <;> exact absurd hc (by decide)
      · rintro rfl
        exact absurd hc (by decide)
      · rintro rfl
        exact absurd hc (by decide)
  scan := by
    intro n r hn hr
    obtain ⟨n, rfl⟩ : ∃ m, n = m + 1 := ⟨n - 1, by omega⟩
    have hall : ∀ c ∈ showInt i, isNumChar c := fun c hc => isNumChar_of_mem_showInt hc
    have hnum : scanNum (showInt i ++ r) = some r := by
      have htake : r.takeWhile isNumChar = [] ∧ r.dropWhile isNumChar = r := by
        cases r with
        | nil => exact ⟨rfl, rfl⟩
        | cons c r => simp [hr c (by simp)]
      rw [scanNum, List.takeWhile_append_of_pos hall, List.dropWhile_append_of_pos hall,
        htake.1, htake.2, List.append_nil, if_pos (isNumber_showInt i)]
    cases hs : showInt i with
    | nil =>
      have := isNumber_showInt i
      rw [hs] at this
      exact absurd this (by decide)
    | cons c s =>
      rw [hs] at hnum
      have hc : isNumChar c := hall c (by rw [hs]; simp)
      -- a number starts with no character that starts another kind of value
      have hne : ∀ d, isNumChar d = false → c ≠ d := by
        rintro d hd rfl
        rw [hc] at hd
        exact absurd hd (by simp)
      rw [List.cons_append, scanValue, if_neg (hne _ (by decide)), if_neg (hne _ (by decide)),
        if_neg (hne _ (by decide)), if_neg (hne _ (by decide)), if_neg (hne _ (by decide)),
        if_neg (hne _ (by decide))]
      exact hnum

lemma isValue_true : IsValue ['t', 'r', 'u', 'e'] where
  head := ⟨'t', _, rfl, by decide, by decide, by decide⟩
  scan := by
    intro n r hn _
    obtain ⟨n, rfl⟩ : ∃ m, n = m + 1 := ⟨n - 1, by omega⟩
    simp [scanValue, dropWord]

lemma isValue_false : IsValue ['f', 'a', 'l', 's', 'e'] where
  head := ⟨'f', _, rfl, by decide, by decide, by decide⟩
  scan := by
    intro n r hn _
    obtain ⟨n, rfl⟩ : ∃ m, n = m + 1 := ⟨n - 1, by omega⟩
    simp [scanValue, dropWord]

/-- The member has a key and a value that read back as themselves. -/
structure Field.WF (f : Field) : Prop where
  key : IsKey f.key
  value : IsValue f.value

lemma Field.wf_of_plain {k v : Text} (hk : k.all isPlain) (hv : IsValue v) : Field.WF ⟨k, v⟩ :=
  ⟨isKey_of_plain (List.all_eq_true.mp hk), hv⟩

lemma scanKey_quote {k : Text} (hk : IsKey k) {c : Char} {r : Text} (hc : isWs c = false) :
    scanKey (quote k ++ ':' :: c :: r) = some (k, c :: r) := by
  have h : scanKey (quote k ++ ':' :: c :: r)
      = (scanStr (k ++ '"' :: ':' :: c :: r)).bind fun x =>
        match skipWs x.2 with
        | [] => none
        | c' :: r => if c' = ':' then some (x.1, skipWs r) else none := by
    simp [quote, scanKey]
  rw [h, hk, Option.bind_some, skipWs_cons_of_not (by decide)]
  simp [skipWs_cons_of_not hc]

/-- A member that is well formed is read off the front of the members. -/
lemma scan_member {f : Field} (hf : f.WF) {n : ℕ} (hn : f.value.length < n) {c : Char} {r : Text}
    (hc : isNumChar c = false) :
    ∃ v, scanKey (quote f.key ++ ':' :: (f.value ++ c :: r)) = some (f.key, v) ∧
      scanValue n v = some (c :: r) ∧ v.take (v.length - (c :: r).length) = f.value := by
  obtain ⟨d, s, hv, hd, -, -⟩ := hf.value.head
  refine ⟨f.value ++ c :: r, ?_, ?_, ?_⟩
  · rw [hv, List.cons_append]
    exact scanKey_quote hf.key hd
  · exact hf.value.scan n (c :: r) hn (by simpa using hc)
  · simp

theorem parseMembers_print {fs : List Field} (hne : fs ≠ []) (hfs : ∀ f ∈ fs, f.WF) {n : ℕ}
    (hn : (printMembers fs).length ≤ n) (r : Text) :
    parseMembers n (printMembers fs ++ r) = some (fs, r) := by
  induction fs generalizing n with
  | nil => exact absurd rfl hne
  | cons f fs ih =>
    have hf : f.WF := hfs f (by simp)
    -- the fuel is the length of what is printed, and a member takes at least one of it
    cases fs with
    | nil =>
      obtain ⟨n, rfl⟩ : ∃ m, n = m + 1 := by
        refine ⟨n - 1, ?_⟩
        simp only [printMembers, quote, List.length_append, List.length_cons] at hn
        omega
      have hlen : f.value.length < n := by
        simp only [printMembers, quote, List.length_append, List.length_cons] at hn
        omega
      obtain ⟨v, hk, hv, ht⟩ := scan_member hf hlen (c := '}') (r := r) (by decide)
      have hs : printMembers [f] ++ r = quote f.key ++ ':' :: (f.value ++ '}' :: r) := by
        simp [printMembers]
      rw [hs, parseMembers, hk, Option.bind_some, hv, Option.bind_some]
      simp only [skipWs_cons_of_not (show isWs '}' = false by decide), ht]
      simp
    | cons g fs =>
      obtain ⟨n, rfl⟩ : ∃ m, n = m + 1 := by
        refine ⟨n - 1, ?_⟩
        simp only [printMembers, quote, List.length_append, List.length_cons] at hn
        omega
      have hlen : f.value.length < n ∧ (printMembers (g :: fs)).length ≤ n := by
        simp only [printMembers, quote, List.length_append, List.length_cons] at hn ⊢
        omega
      obtain ⟨v, hk, hv, ht⟩ := scan_member hf hlen.1 (c := ',')
        (r := printMembers (g :: fs) ++ r) (by decide)
      have hs : printMembers (f :: g :: fs) ++ r
          = quote f.key ++ ':' :: (f.value ++ ',' :: (printMembers (g :: fs) ++ r)) := by
        simp [printMembers]
      have hws : skipWs (printMembers (g :: fs) ++ r) = printMembers (g :: fs) ++ r := by
        cases fs <;> simp [printMembers, quote, skipWs, isWs]
      have hrest := ih (by simp) (fun f' hf' => hfs f' (by simp [hf'])) hlen.2
      rw [hs, parseMembers, hk, Option.bind_some, hv, Option.bind_some]
      simp only [skipWs_cons_of_not (show isWs ',' = false by decide), hws, hrest, ht]
      simp

/-- **Printing and reading back.**  The members of a printed object are read back as they
were. -/
theorem parseObject_printObject {fs : List Field} (hfs : ∀ f ∈ fs, f.WF) :
    parseObject (printObject fs) = some fs := by
  cases fs with
  | nil => decide
  | cons f fs =>
    have hq : ∃ s, printMembers (f :: fs) = '"' :: s := by
      cases fs with
      | nil => exact ⟨_, rfl⟩
      | cons g fs => exact ⟨_, rfl⟩
    obtain ⟨s, hs⟩ := hq
    have hws : skipWs (printMembers (f :: fs)) = printMembers (f :: fs) := by
      rw [hs]
      exact skipWs_cons_of_not (by decide)
    have hparse := parseMembers_print (by simp) hfs (n := (printObject (f :: fs)).length)
      (by simp [printObject]) []
    rw [List.append_nil] at hparse
    rw [parseObject, printObject, skipWs_cons_of_not (by decide)]
    simp only [if_true, hws]
    rw [printObject] at hparse
    rw [if_neg (by rw [hs]; simp), hparse]
    rfl

/-- The members of an object are scanned as they are read. -/
lemma scanMembers_of_parseMembers {n : ℕ} {s : Text} {x : List Field × Text}
    (h : parseMembers n s = some x) : scanMembers n s = some x.2 := by
  induction n generalizing s x with
  | zero => simp [parseMembers] at h
  | succ n ih =>
    simp only [parseMembers, Option.bind_eq_some_iff] at h
    obtain ⟨k, hk, r, hr, h⟩ := h
    rw [scanMembers, hk, Option.bind_some, hr, Option.bind_some]
    cases hs : skipWs r with
    | nil => simp [hs] at h
    | cons c r' =>
      simp only [hs] at h ⊢
      split at h
      · simp only [Option.map_eq_some_iff] at h
        obtain ⟨y, hy, hx⟩ := h
        rw [if_pos ‹_›, ih hy, ← hx]
      · rw [if_neg ‹_›]
        split at h
        · simp only [Option.some.injEq] at h
          rw [if_pos ‹_›, ← h]
        · simp at h

lemma isValue_printObject {fs : List Field} (hfs : ∀ f ∈ fs, f.WF) :
    IsValue (printObject fs) where
  head := ⟨'{', _, rfl, by decide, by decide, by decide⟩
  scan := by
    intro n r hn _
    obtain ⟨n, rfl⟩ : ∃ m, n = m + 1 := ⟨n - 1, by omega⟩
    rw [printObject, List.cons_append, scanValue, if_neg (by decide), if_pos rfl]
    cases fs with
    | nil => simp [printMembers, skipWs, isWs]
    | cons f fs =>
      have hq : ∃ s, printMembers (f :: fs) = '"' :: s := by
        cases fs with
        | nil => exact ⟨_, rfl⟩
        | cons g fs => exact ⟨_, rfl⟩
      obtain ⟨s, hs⟩ := hq
      have hws : skipWs (printMembers (f :: fs) ++ r) = printMembers (f :: fs) ++ r := by
        rw [hs, List.cons_append]
        exact skipWs_cons_of_not (by decide)
      rw [hws, if_neg (by rw [hs]; simp)]
      have hlen : (printMembers (f :: fs)).length ≤ n := by
        simp only [printObject, List.length_cons] at hn
        omega
      simpa using scanMembers_of_parseMembers (parseMembers_print (by simp) hfs hlen r)

end Lib.Json
