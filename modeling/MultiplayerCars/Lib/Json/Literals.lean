import MultiplayerCars.Lib.Json.Object

/-!
# The string literals of a text, and minification

The quotation marks of a text, escapes taken into account, divide it into string literals and
what stands between them.  Minification removes white space between literals only, so it keeps
the literals; and whatever a reader takes from the front of a text leaves it between literals,
so every key and every string it finds is one of the literals of the text.
-/

namespace Lib.Json

/-- Whether a place in a text is between literals, inside one, or inside one after a
backslash. -/
inductive Lex where
  | out | str | esc
deriving DecidableEq, Repr

/-- The place after one more character. -/
def Lex.next : Lex → Char → Lex
  | .out, c => if c = '"' then .str else .out
  | .str, c => if c = '"' then .out else if c = '\\' then .esc else .str
  | .esc, _ => .str

/-- The place after a text. -/
def Lex.run (m : Lex) (s : Text) : Lex := s.foldl Lex.next m

@[simp] lemma Lex.run_nil (m : Lex) : m.run [] = m := rfl

@[simp] lemma Lex.run_cons (m : Lex) (c : Char) (s : Text) : m.run (c :: s) = (m.next c).run s :=
  rfl

lemma Lex.run_append (m : Lex) (a b : Text) : m.run (a ++ b) = (m.run a).run b := by
  simp [Lex.run]

/-- Remove the white space between literals. -/
def squeeze : Lex → Text → Text
  | _, [] => []
  | m, c :: s =>
    if m = .out ∧ isWs c then squeeze .out s else c :: squeeze (m.next c) s

/-- Minification: remove the white space between literals; a text that ends inside a literal
gives the empty text. -/
def minify (s : Text) : Text := if Lex.out.run s = .out then squeeze .out s else []

/-- The rest of the literal in which a text starts, and the literals after it. -/
def segs : Lex → Text → Text × List Text
  | _, [] => ([], [])
  | .out, c :: s =>
    if c = '"' then ([], (segs .str s).1 :: (segs .str s).2) else segs .out s
  | .str, c :: s =>
    if c = '"' then ([], (segs .out s).2)
    else (c :: (segs (Lex.str.next c) s).1, (segs (Lex.str.next c) s).2)
  | .esc, c :: s => (c :: (segs .str s).1, (segs .str s).2)

/-- The literals of a text. -/
def lits (s : Text) : List Text := (segs .out s).2

@[simp] lemma segs_out_fst (s : Text) : (segs .out s).1 = [] := by
  induction s with
  | nil => rfl
  | cons c s ih =>
    rw [segs]
    split
    · rfl
    · exact ih

/-! ### Minification keeps the literals -/

lemma next_of_isWs {c : Char} (h : isWs c) : Lex.out.next c = .out ∧ c ≠ '"' := by
  have hc : c ≠ '"' := by
    rintro rfl
    exact absurd h (by decide)
  exact ⟨by simp [Lex.next, hc], hc⟩

lemma squeeze_append (m : Lex) (a b : Text) :
    squeeze m (a ++ b) = squeeze m a ++ squeeze (m.run a) b := by
  induction a generalizing m with
  | nil => simp [squeeze]
  | cons c a ih =>
    rw [List.cons_append, squeeze, squeeze]
    split
    · rename_i h
      obtain ⟨rfl, hw⟩ := h
      rw [ih, Lex.run_cons, (next_of_isWs hw).1]
    · rw [ih, Lex.run_cons, List.cons_append]

lemma segs_squeeze (m : Lex) (s : Text) : segs m (squeeze m s) = segs m s := by
  induction s generalizing m with
  | nil => rfl
  | cons c s ih =>
    rw [squeeze]
    split
    · rename_i h
      obtain ⟨rfl, hw⟩ := h
      rw [ih, segs, if_neg (next_of_isWs hw).2]
    · cases m with
      | out =>
        rw [segs, segs]
        by_cases hq : c = '"'
        · rw [if_pos hq, if_pos hq, show Lex.out.next c = .str by simp [Lex.next, hq], ih]
        · rw [if_neg hq, if_neg hq, show Lex.out.next c = .out by simp [Lex.next, hq], ih]
      | str =>
        rw [segs, segs]
        by_cases hq : c = '"'
        · rw [if_pos hq, if_pos hq, show Lex.str.next c = .out by simp [Lex.next, hq], ih]
        · rw [if_neg hq, if_neg hq, ih]
      | esc =>
        rw [segs, segs, show Lex.esc.next c = .str from rfl, ih]

lemma lits_squeeze (s : Text) : lits (squeeze .out s) = lits s := by
  rw [lits, segs_squeeze, lits]

/-- From one place in a text to another, minification leaves `t` of the text `s`. -/
def Squeezes (m : Lex) (s t : Text) (m' : Lex) : Prop := squeeze m s = t ∧ m.run s = m'

lemma Squeezes.append {m m' m'' : Lex} {s t s' t' : Text} (h : Squeezes m s t m')
    (h' : Squeezes m' s' t' m'') : Squeezes m (s ++ s') (t ++ t') m'' := by
  obtain ⟨hs, hm⟩ := h
  obtain ⟨hs', hm'⟩ := h'
  exact ⟨by rw [squeeze_append, hs, hm, hs'], by rw [Lex.run_append, hm, hm']⟩

/-- What is documented of a minifier: it removes the white space between literals and nothing else,
and of a text that ends inside a literal it leaves nothing. -/
structure Minifies (f : Text → Text) : Prop where
  squeezes : ∀ {s t : Text}, Squeezes .out s t .out → f s = t
  unclosed : ∀ {s : Text}, Lex.out.run s ≠ .out → f s = []

lemma minifies_minify : Minifies minify where
  squeezes h := by rw [minify, if_pos h.2, h.1]
  unclosed h := if_neg h

/-- The documentation leaves a minifier no choice. -/
theorem Minifies.eq_minify {f : Text → Text} (h : Minifies f) : f = minify := by
  funext s
  by_cases hs : Lex.out.run s = .out
  · rw [h.squeezes ⟨rfl, hs⟩, minifies_minify.squeezes ⟨rfl, hs⟩]
  · rw [h.unclosed hs, minifies_minify.unclosed hs]

/-- Between literals, a text without white space and quotation marks stays as it is. -/
lemma squeezes_out {k : Text} (hk : ∀ c ∈ k, isWs c = false ∧ c ≠ '"') :
    Squeezes .out k k .out := by
  induction k with
  | nil => exact ⟨rfl, rfl⟩
  | cons c k ih =>
    obtain ⟨hw, hq⟩ := hk c (by simp)
    obtain ⟨h₁, h₂⟩ := ih fun d hd => hk d (by simp [hd])
    have hn : Lex.out.next c = .out := by simp [Lex.next, hq]
    exact ⟨by simp [squeeze, hw, hn, h₁], by rw [Lex.run_cons, hn, h₂]⟩

/-- Inside a literal, a text that needs no escapes stays as it is. -/
lemma squeezes_str {k : Text} (hk : ∀ c ∈ k, c ≠ '"' ∧ c ≠ '\\') :
    Squeezes .str k k .str := by
  induction k with
  | nil => exact ⟨rfl, rfl⟩
  | cons c k ih =>
    obtain ⟨hq, hb⟩ := hk c (by simp)
    obtain ⟨h₁, h₂⟩ := ih fun d hd => hk d (by simp [hd])
    have hn : Lex.str.next c = .str := by simp [Lex.next, hq, hb]
    exact ⟨by simp [squeeze, hn, h₁], by rw [Lex.run_cons, hn, h₂]⟩

lemma squeezes_showInt (i : ℤ) : Squeezes .out (showInt i) (showInt i) .out := by
  refine squeezes_out fun c hc => ?_
  have hnum : isNumChar c := isNumChar_of_mem_showInt hc
  constructor
  · rw [Bool.eq_false_iff]
    intro hw
    simp only [isWs, Bool.or_eq_true, beq_iff_eq] at hw
    rcases hw with ((rfl | rfl) | rfl) | rfl <;> exact absurd hnum (by decide)
  · rintro rfl
    exact absurd hnum (by decide)

instance (m : Lex) (s t : Text) (m' : Lex) : Decidable (Squeezes m s t m') :=
  inferInstanceAs (Decidable (_ ∧ _))

/-! ### The literals of a text that ends between literals -/

/-- The text leaves a reader that starts between literals between literals. -/
def Closed (v : Text) : Prop := Lex.out.run v = .out

instance (v : Text) : Decidable (Closed v) := inferInstanceAs (Decidable (_ = _))

lemma Closed.append {v w : Text} (hv : Closed v) (hw : Closed w) : Closed (v ++ w) := by
  rw [Closed, Lex.run_append, hv, hw]

lemma closed_of_no_quote {v : Text} (h : ∀ c ∈ v, c ≠ '"') : Closed v := by
  induction v with
  | nil => rfl
  | cons c v ih =>
    have hc : c ≠ '"' := h c (by simp)
    rw [Closed, Lex.run_cons, show Lex.out.next c = .out by simp [Lex.next, hc]]
    exact ih fun d hd => h d (by simp [hd])

lemma segs_append {m : Lex} {a : Text} (h : m.run a = .out) (b : Text) :
    segs m (a ++ b) = ((segs m a).1, (segs m a).2 ++ lits b) := by
  induction a generalizing m with
  | nil =>
    rw [Lex.run_nil] at h
    subst h
    simp only [List.nil_append, segs, lits]
    rw [← segs_out_fst b]
  | cons c a ih =>
    rw [Lex.run_cons] at h
    cases m with
    | out =>
      rw [List.cons_append, segs, segs]
      by_cases hq : c = '"'
      · have := ih (m := .str) (by simpa [Lex.next, hq] using h)
        rw [if_pos hq, if_pos hq, this]
        simp
      · have := ih (m := .out) (by simpa [Lex.next, hq] using h)
        rw [if_neg hq, if_neg hq, this]
    | str =>
      rw [List.cons_append, segs, segs]
      by_cases hq : c = '"'
      · have := ih (m := .out) (by simpa [Lex.next, hq] using h)
        rw [if_pos hq, if_pos hq, this]
      · have := ih h
        rw [if_neg hq, if_neg hq, this]
    | esc =>
      have := ih (m := .str) h
      rw [List.cons_append, segs, segs, this]

lemma lits_append {v : Text} (hv : Closed v) (r : Text) : lits (v ++ r) = lits v ++ lits r := by
  rw [lits, segs_append hv]
  rfl

/-- The place that the flag of `splitLit` stands for. -/
def lexOf (escaped : Bool) : Lex := if escaped then .esc else .str

lemma splitLit_spec {e : Bool} {s raw r : Text} (h : splitLit e s = some (raw, r)) :
    s = raw ++ '"' :: r ∧ (lexOf e).run raw = .str ∧
      segs (lexOf e) (raw ++ ['"']) = (raw, []) := by
  induction s generalizing e raw with
  | nil => cases e <;> simp [splitLit] at h
  | cons c s ih =>
    cases e with
    | true =>
      -- whatever follows a backslash belongs to the literal
      simp only [splitLit, Option.map_eq_some_iff, Prod.mk.injEq] at h
      obtain ⟨x, hx, rfl, rfl⟩ := h
      obtain ⟨h₁, h₂, h₃⟩ := ih hx
      refine ⟨by rw [h₁]; rfl, by rw [Lex.run_cons]; exact h₂, ?_⟩
      have h₃' : segs .str (x.1 ++ ['"']) = (x.1, []) := h₃
      simp [lexOf, segs, h₃']
    | false =>
      rw [splitLit] at h
      split at h
      · rename_i hq
        simp only [Option.some.injEq, Prod.mk.injEq] at h
        obtain ⟨rfl, rfl⟩ := h
        exact ⟨by rw [hq]; rfl, rfl, rfl⟩
      · rename_i hq
        simp only [Option.map_eq_some_iff, Prod.mk.injEq] at h
        obtain ⟨x, hx, rfl, rfl⟩ := h
        obtain ⟨h₁, h₂, h₃⟩ := ih hx
        have hn : Lex.str.next c = lexOf (c == '\\') := by
          by_cases hb : c = '\\' <;> simp [Lex.next, lexOf, hq, hb]
        refine ⟨by rw [h₁]; rfl, ?_, ?_⟩
        · rw [show lexOf false = .str from rfl, Lex.run_cons, hn, h₂]
        · rw [show lexOf false = .str from rfl, List.cons_append, segs, if_neg hq, hn, h₃]

/-- Minification leaves the characters of a literal alone. -/
lemma squeeze_splitLit {e : Bool} {s raw r : Text} (h : splitLit e s = some (raw, r)) :
    squeeze (lexOf e) raw = raw := by
  induction s generalizing e raw with
  | nil => cases e <;> simp [splitLit] at h
  | cons c s ih =>
    cases e with
    | true =>
      simp only [splitLit, Option.map_eq_some_iff, Prod.mk.injEq] at h
      obtain ⟨x, hx, rfl, rfl⟩ := h
      have hesc : Lex.esc.next c = lexOf false := rfl
      rw [show lexOf true = .esc from rfl, squeeze, if_neg (by simp), hesc, ih hx]
    | false =>
      rw [splitLit] at h
      split at h
      · obtain ⟨rfl, -⟩ := Prod.mk.inj (Option.some.inj h)
        rfl
      · rename_i hq
        simp only [Option.map_eq_some_iff, Prod.mk.injEq] at h
        obtain ⟨x, hx, rfl, rfl⟩ := h
        have hn : Lex.str.next c = lexOf (c == '\\') := by
          by_cases hb : c = '\\' <;> simp [Lex.next, lexOf, hq, hb]
        rw [show lexOf false = .str from rfl, squeeze, if_neg (by simp), hn, ih hx]

/-- A literal that reads back as itself is left alone inside its quotation marks. -/
lemma squeezes_key {k : Text} (hk : IsKey k) : Squeezes .str k k .str := by
  have hscan := hk []
  rw [scanStr, Option.bind_eq_some_iff] at hscan
  obtain ⟨x, hx, hif⟩ := hscan
  split_ifs at hif
  rw [Option.some.inj hif] at hx
  exact ⟨squeeze_splitLit hx, (splitLit_spec hx).2.1⟩

/-- A string literal and its quotation marks are closed, and the literal is their only one. -/
lemma scanStr_spec {s raw r : Text} (h : scanStr s = some (raw, r)) :
    s = raw ++ '"' :: r ∧ Closed (quote raw) ∧ lits (quote raw) = [raw] := by
  simp only [scanStr, Option.bind_eq_some_iff] at h
  obtain ⟨x, hx, h⟩ := h
  split at h
  · simp only [Option.some.injEq] at h
    subst h
    obtain ⟨h₁, h₂, h₃⟩ := splitLit_spec hx
    have h₂' : Lex.str.run raw = .str := h₂
    have h₃' : segs .str (raw ++ ['"']) = (raw, []) := h₃
    refine ⟨h₁, ?_, ?_⟩
    · rw [Closed, quote, Lex.run_cons, show Lex.out.next '"' = .str from rfl, Lex.run_append, h₂']
      rfl
    · rw [lits, quote, segs, if_pos rfl, h₃']
  · simp at h

lemma closed_of_dropWord {w s r : Text} (hw : '"' ∉ w) (h : dropWord w s = some r) :
    s = w ++ r ∧ Closed w := by
  rw [dropWord] at h
  split at h
  · rename_i hp
    obtain ⟨t, rfl⟩ := hp
    simp only [List.drop_left, Option.some.injEq] at h
    exact ⟨by rw [h], closed_of_no_quote fun c hc hq => hw (hq ▸ hc)⟩
  · simp at h

lemma ws_closed {s : Text} : ∃ w, s = w ++ skipWs s ∧ Closed w := by
  obtain ⟨w, hs, hw⟩ := exists_ws_append_skipWs s
  exact ⟨w, hs, closed_of_no_quote fun c hc => (next_of_isWs (hw c hc)).2⟩

/-- What a reader takes from the front of a text ends between literals. -/
def Takes (s r : Text) : Prop := ∃ v, s = v ++ r ∧ Closed v

lemma Takes.trans {s r q : Text} (h₁ : Takes s r) (h₂ : Takes r q) : Takes s q := by
  obtain ⟨v, rfl, hv⟩ := h₁
  obtain ⟨w, rfl, hw⟩ := h₂
  exact ⟨v ++ w, by simp, hv.append hw⟩

lemma takes_skipWs (s : Text) : Takes s (skipWs s) := ws_closed

lemma takes_char {c : Char} (hc : c ≠ '"') (s : Text) : Takes (c :: s) s :=
  ⟨[c], rfl, closed_of_no_quote fun d hd => by rw [List.mem_singleton.mp hd]; exact hc⟩

lemma Takes.lits {s r : Text} (h : Takes s r) : ∃ v, s = v ++ r ∧ lits s = lits v ++ lits r := by
  obtain ⟨v, rfl, hv⟩ := h
  exact ⟨v, rfl, lits_append hv r⟩

/-- The white space and one character that a reader looks at after an item. -/
lemma takes_skipWs_cons {s r : Text} {c : Char} (h : skipWs s = c :: r) (hc : c ≠ '"') :
    Takes s r := by
  have := (takes_skipWs s).trans (r := skipWs s) (q := r)
  exact this (by rw [h]; exact takes_char hc r)

lemma scanKey_spec {s : Text} {x : Text × Text} (h : scanKey s = some x) :
    Takes s x.2 ∧ x.1 ∈ lits s := by
  cases s with
  | nil => simp [scanKey] at h
  | cons c s =>
    rw [scanKey] at h
    split at h
    · rename_i hc
      simp only [Option.bind_eq_some_iff] at h
      obtain ⟨⟨raw, r⟩, hraw, h⟩ := h
      obtain ⟨rfl, hcl, hl⟩ := scanStr_spec hraw
      cases hs : skipWs r with
      | nil => simp [hs] at h
      | cons c' r' =>
        simp only [hs] at h
        split at h
        · rename_i hc'
          simp only [Option.some.injEq] at h
          subst h
          have hq : c :: (raw ++ '"' :: r) = quote raw ++ r := by simp [quote, hc]
          refine ⟨?_, ?_⟩
          · rw [hq]
            have hr : Takes r (skipWs r') :=
              (takes_skipWs_cons hs (by rw [hc']; decide)).trans (takes_skipWs r')
            exact Takes.trans ⟨quote raw, rfl, hcl⟩ hr
          · rw [hq, lits_append hcl, hl]
            simp
        · simp at h
    · simp at h

/-- Read the inside of an object or an array, which may be empty. -/
lemma takes_inside {f : Text → Option Text} {close : Char} (hclose : close ≠ '"')
    (hf : ∀ s r, f s = some r → Takes s r) {c : Char} (hc : c ≠ '"') {s r : Text}
    (h : (if (skipWs s).head? = some close then some (skipWs s).tail else f (skipWs s)) = some r) :
    Takes (c :: s) r := by
  have hcs : Takes (c :: s) s := takes_char hc s
  split at h
  · rename_i hhead
    obtain ⟨q, hq⟩ := List.head?_eq_some_iff.mp hhead
    rw [hq, List.tail_cons] at h
    rw [← Option.some.inj h]
    exact hcs.trans (takes_skipWs_cons hq hclose)
  · exact hcs.trans ((takes_skipWs s).trans (hf _ _ h))

/-- Read on after an item, or to the end of the object or the array. -/
lemma takes_next {f : Text → Option Text} {close : Char} (hclose : close ≠ '"')
    (hf : ∀ s r, f s = some r → Takes s r) {s r : Text}
    (h : (match skipWs s with
      | [] => none
      | c :: r' => if c = ',' then f (skipWs r') else if c = close then some r' else none)
        = some r) : Takes s r := by
  cases hs : skipWs s with
  | nil => simp [hs] at h
  | cons c r' =>
    simp only [hs] at h
    split at h
    · rename_i hc
      have hcomma : Takes s r' := takes_skipWs_cons hs (by rw [hc]; decide)
      exact hcomma.trans ((takes_skipWs r').trans (hf _ _ h))
    · split at h
      · rename_i hc
        rw [← Option.some.inj h]
        exact takes_skipWs_cons hs (by rw [hc]; exact hclose)
      · simp at h

lemma takes_dropWord {word s r : Text} (hword : '"' ∉ word) {c : Char} (hc : c ≠ '"')
    (h : dropWord word s = some r) : Takes (c :: s) r := by
  obtain ⟨rfl, hcl⟩ := closed_of_dropWord hword h
  exact (takes_char hc _).trans ⟨_, rfl, hcl⟩

lemma takes_scanNum {s r : Text} (h : scanNum s = some r) : Takes s r := by
  rw [scanNum] at h
  split at h
  · rw [← Option.some.inj h]
    refine ⟨s.takeWhile isNumChar, by simp, closed_of_no_quote fun d hd => ?_⟩
    have hnum : isNumChar d := List.all_eq_true.mp List.all_takeWhile d hd
    rintro rfl
    exact absurd hnum (by decide)
  · simp at h

section Scan

variable {n : ℕ} {s r : Text}

lemma takes_scanValue (ihM : ∀ s r, scanMembers n s = some r → Takes s r)
    (ihE : ∀ s r, scanElems n s = some r → Takes s r) (h : scanValue (n + 1) s = some r) :
    Takes s r := by
  cases s with
  | nil => simp [scanValue] at h
  | cons c s =>
    rw [scanValue] at h
    by_cases hq : c = '"'
    · rw [if_pos hq, Option.map_eq_some_iff] at h
      obtain ⟨⟨raw, r'⟩, hraw, rfl⟩ := h
      obtain ⟨rfl, hcl, -⟩ := scanStr_spec hraw
      exact ⟨quote raw, by simp [quote, hq], hcl⟩
    -- the other values do not start with a quotation mark
    rw [if_neg hq] at h
    split at h
    · exact takes_inside (by decide) ihM hq h
    split at h
    · exact takes_inside (by decide) ihE hq h
    split at h
    · exact takes_dropWord (by decide) hq h
    split at h
    · exact takes_dropWord (by decide) hq h
    split at h
    · exact takes_dropWord (by decide) hq h
    exact takes_scanNum h

lemma takes_scanMembers (ihV : ∀ s r, scanValue n s = some r → Takes s r)
    (ihM : ∀ s r, scanMembers n s = some r → Takes s r) (h : scanMembers (n + 1) s = some r) :
    Takes s r := by
  simp only [scanMembers, Option.bind_eq_some_iff] at h
  obtain ⟨x, hx, r₁, hr₁, h⟩ := h
  have hitem : Takes s r₁ := (scanKey_spec hx).1.trans (ihV _ _ hr₁)
  exact hitem.trans (takes_next (by decide) ihM h)

lemma takes_scanElems (ihV : ∀ s r, scanValue n s = some r → Takes s r)
    (ihE : ∀ s r, scanElems n s = some r → Takes s r) (h : scanElems (n + 1) s = some r) :
    Takes s r := by
  simp only [scanElems, Option.bind_eq_some_iff] at h
  obtain ⟨r₁, hr₁, h⟩ := h
  exact (ihV _ _ hr₁).trans (takes_next (by decide) ihE h)

end Scan

theorem scan_takes (n : ℕ) :
    (∀ s r, scanValue n s = some r → Takes s r) ∧
      (∀ s r, scanMembers n s = some r → Takes s r) ∧
        (∀ s r, scanElems n s = some r → Takes s r) := by
  induction n with
  | zero => simp [scanValue, scanMembers, scanElems]
  | succ n ih =>
    obtain ⟨ihV, ihM, ihE⟩ := ih
    exact ⟨fun _ _ => takes_scanValue ihM ihE, fun _ _ => takes_scanMembers ihV ihM,
      fun _ _ => takes_scanElems ihV ihE⟩

/-- The literals of the values of an object's members are literals of the object. -/
theorem lits_of_parseMembers {n : ℕ} {s : Text} {x : List Field × Text}
    (h : parseMembers n s = some x) :
    ∀ f ∈ x.1, ∀ k ∈ lits f.value, k ∈ lits s := by
  induction n generalizing s x with
  | zero => simp [parseMembers] at h
  | succ n ih =>
    simp only [parseMembers, Option.bind_eq_some_iff] at h
    obtain ⟨y, hy, r, hr, h⟩ := h
    obtain ⟨u, hu, hlu⟩ := (scanKey_spec hy).1.lits
    obtain ⟨v, hv, hlv⟩ := ((scan_takes n).1 _ _ hr).lits
    have hval : y.2.take (y.2.length - r.length) = v := by simp [hv]
    have hfirst : ∀ k ∈ lits v, k ∈ lits s := by
      intro k hk
      rw [hlu, hlv]
      simp [hk]
    cases hs : skipWs r with
    | nil => simp [hs] at h
    | cons c r' =>
      simp only [hs, hval] at h
      split at h
      · rename_i hc
        simp only [Option.map_eq_some_iff] at h
        obtain ⟨z, hz, rfl⟩ := h
        obtain ⟨w, hw, hlw⟩ := (takes_skipWs_cons hs (by rw [hc]; decide)).lits
        obtain ⟨w', hw', hlw'⟩ := (takes_skipWs r').lits
        intro f hf k hk
        rcases List.mem_cons.mp hf with rfl | hf
        · exact hfirst k hk
        · have := ih hz f hf k hk
          rw [hlu, hlv, hlw, hlw']
          simp [this]
      · split at h
        · simp only [Option.some.injEq] at h
          subst h
          intro f hf k hk
          rw [List.mem_singleton] at hf
          subst hf
          exact hfirst k hk
        · simp at h

theorem lits_of_parseObject {s : Text} {fs : List Field} (h : parseObject s = some fs) :
    ∀ f ∈ fs, ∀ k ∈ lits f.value, k ∈ lits s := by
  rw [parseObject] at h
  cases hs : skipWs s with
  | nil => simp [hs] at h
  | cons c r =>
    simp only [hs] at h
    split at h
    · rename_i hc
      obtain ⟨w, hw, hlw⟩ := (takes_skipWs_cons hs (by rw [hc]; decide)).lits
      obtain ⟨w', hw', hlw'⟩ := (takes_skipWs r).lits
      split at h
      · split at h
        · simp only [Option.some.injEq] at h
          simp [← h]
        · simp at h
      · simp only [Option.bind_eq_some_iff] at h
        obtain ⟨x, hx, h⟩ := h
        split at h
        · simp only [Option.some.injEq] at h
          subst h
          intro f hf k hk
          have := lits_of_parseMembers hx f hf k hk
          rw [hlw, hlw']
          simp [this]
        · simp at h
    · simp at h

/-- The literal of a value that is a string is its only literal. -/
lemma lits_of_strLit {v raw : Text} (h : strLit v = some raw) : v = quote raw ∧ raw ∈ lits v := by
  cases v with
  | nil => simp [strLit] at h
  | cons c s =>
    rw [strLit] at h
    split at h
    · rename_i hc
      simp only [Option.bind_eq_some_iff] at h
      obtain ⟨⟨k, r⟩, hk, h⟩ := h
      split at h
      · rename_i hr
        simp only [Option.some.injEq] at h
        subst h
        obtain ⟨rfl, -, hl⟩ := scanStr_spec hk
        simp only at hr
        have hq : c :: (k ++ '"' :: r) = quote k := by simp [quote, hc, hr]
        rw [hq, hl]
        exact ⟨rfl, by simp⟩
      · simp at h
    · simp at h

lemma strLit_quote {k : Text} (hk : IsKey k) : strLit (quote k) = some k := by
  have h := hk []
  simp [quote, strLit, h]

/-! ### What the literals of a text look like -/

lemma mem_of_mem_segs (m : Lex) (s : Text) :
    (∀ c ∈ (segs m s).1, c ∈ s) ∧ ∀ k ∈ (segs m s).2, ∀ c ∈ k, c ∈ s := by
  induction s generalizing m with
  | nil => cases m <;> simp [segs]
  | cons d s ih =>
    -- what stands in the rest of the text stands in the text
    have keep : ∀ {k : Text}, (∀ c ∈ k, c ∈ s) → ∀ c ∈ k, c ∈ d :: s :=
      fun h c hc => List.mem_cons_of_mem d (h c hc)
    cases m with
    | out =>
      rw [segs]
      split_ifs
      · refine ⟨by simp, ?_⟩
        intro k hk
        rcases List.mem_cons.mp hk with rfl | hk
        · exact keep (ih .str).1
        · exact keep ((ih .str).2 k hk)
      · exact ⟨keep (ih .out).1, fun k hk => keep ((ih .out).2 k hk)⟩
    | str =>
      rw [segs]
      split_ifs
      · exact ⟨by simp, fun k hk => keep ((ih .out).2 k hk)⟩
      · refine ⟨?_, fun k hk => keep ((ih _).2 k hk)⟩
        intro c hc
        rcases List.mem_cons.mp hc with rfl | hc
        · simp
        · exact keep (ih _).1 c hc
    | esc =>
      rw [segs]
      refine ⟨?_, fun k hk => keep ((ih _).2 k hk)⟩
      intro c hc
      rcases List.mem_cons.mp hc with rfl | hc
      · simp
      · exact keep (ih _).1 c hc

/-- The characters of a literal are characters of the text. -/
lemma mem_of_mem_lits {s k : Text} (hk : k ∈ lits s) {c : Char} (hc : c ∈ k) : c ∈ s :=
  (mem_of_mem_segs .out s).2 k hk c hc

/-- In a text that ends between literals, a literal leaves room for its two marks. -/
lemma length_segs {m : Lex} {s : Text} (h : m.run s = .out) :
    (m ≠ .out → (segs m s).1.length + 1 ≤ s.length) ∧
      ∀ k ∈ (segs m s).2, k.length + 2 ≤ s.length := by
  -- along the text: a literal that the text closes has its closing mark still to come
  induction s generalizing m with
  | nil =>
    rw [Lex.run_nil] at h
    subst h
    simp [segs]
  | cons d s ih =>
    rw [Lex.run_cons] at h
    have keep : ∀ {k : Text}, k.length + 2 ≤ s.length → k.length + 2 ≤ (d :: s).length := by
      intro k hk
      rw [List.length_cons]
      omega
    cases m with
    | out =>
      refine ⟨fun hno => absurd rfl hno, ?_⟩
      rw [segs]
      split_ifs with hq
      · have hs := ih (m := .str) (by simpa [Lex.next, hq] using h)
        intro k hk
        rcases List.mem_cons.mp hk with rfl | hk
        · have := hs.1 (by simp)
          rw [List.length_cons]
          omega
        · exact keep (hs.2 k hk)
      · have hs := ih (m := .out) (by simpa [Lex.next, hq] using h)
        exact fun k hk => keep (hs.2 k hk)
    | str =>
      rw [segs]
      split_ifs with hq
      · have hs := ih (m := .out) (by simpa [Lex.next, hq] using h)
        exact ⟨by simp, fun k hk => keep (hs.2 k hk)⟩
      · have hs := ih h
        have hne : Lex.str.next d ≠ .out := by
          simp only [Lex.next, if_neg hq]
          split_ifs <;> simp
        refine ⟨fun _ => ?_, fun k hk => keep (hs.2 k hk)⟩
        have := hs.1 hne
        simp only [List.length_cons]
        omega
    | esc =>
      have hs := ih (m := .str) h
      rw [segs]
      refine ⟨fun _ => ?_, fun k hk => keep (hs.2 k hk)⟩
      have := hs.1 (by simp)
      simp only [List.length_cons]
      omega

lemma length_lits {s k : Text} (h : Closed s) (hk : k ∈ lits s) : k.length + 2 ≤ s.length :=
  (length_segs h).2 k hk

lemma no_quote_segs (m : Lex) (s : Text) :
    (m = .str → '\\' ∉ (segs m s).1 → '"' ∉ (segs m s).1) ∧
      ∀ k ∈ (segs m s).2, '\\' ∉ k → '"' ∉ k := by
  induction s generalizing m with
  | nil => cases m <;> simp [segs]
  | cons d s ih =>
    cases m with
    | out =>
      refine ⟨fun hno => absurd hno (by simp), ?_⟩
      rw [segs]
      split_ifs
      · intro k hk
        rcases List.mem_cons.mp hk with rfl | hk
        · exact (ih .str).1 rfl
        · exact (ih .str).2 k hk
      · exact (ih .out).2
    | str =>
      rw [segs]
      split_ifs with hq
      · exact ⟨by simp, (ih .out).2⟩
      · refine ⟨?_, (ih _).2⟩
        intro _ hb hmem
        simp only [List.mem_cons, not_or] at hb hmem
        -- without a backslash the reader stays in the literal, where a mark would end it
        have hd : ¬ d = '\\' := fun he => hb.1 he.symm
        have hn : Lex.str.next d = .str := by simp [Lex.next, hq, hd]
        rcases hmem with he | hmem
        · exact hq he.symm
        · exact (ih _).1 hn hb.2 hmem
    | esc =>
      rw [segs]
      exact ⟨fun hno => absurd hno (by simp), (ih .str).2⟩

/-- A quotation mark stands in a literal only after a backslash. -/
lemma no_quote_of_mem_lits {s k : Text} (hk : k ∈ lits s) (hb : '\\' ∉ k) : '"' ∉ k :=
  (no_quote_segs .out s).2 k hk hb

end Lib.Json
