import Mathlib.Data.Fintype.BigOperators
import Mathlib.Data.Fintype.Prod
import Mathlib.SetTheory.Cardinal.Finite
import MultiplayerCars.CPPClient.Frames

/-!
# Where the UUIDs come from

`generate_uuid_v4` writes to a stream what two distributions give it, digit by digit.  A player is
told from the others by nothing but this text, so what matters is how many there are, and that none
is preferred: every UUID of version 4 is written for one sequence of digits and no other.
-/

namespace MultiplayerCars.CPPClient

open Lib.Json

/-! ### The stream -/

/-- What stands in `ss`, and what `dis` and `dis2` are going to return; `dis2` returns 8 to 11. -/
structure UuidStream where
  ss : Text
  dis : List (Fin 16)
  dis2 : List (Fin 4)

/-- A digit, as `std::hex` writes it. -/
def hexDigit (d : Fin 16) : Char := "0123456789abcdef".toList.get d

/-- The digits that `dis2` returns. -/
def variantDigit (d : Fin 4) : Char := hexDigit ⟨8 + d, by omega⟩

namespace UuidStream

def text (s : UuidStream) (t : Text) : UuidStream := { s with ss := s.ss ++ t }

/-- `ss << dis(gen)`. -/
def digit (s : UuidStream) : Option UuidStream :=
  match s.dis with
  | d :: dis => some { s with ss := s.ss ++ [hexDigit d], dis := dis }
  | [] => none

/-- `ss << dis2(gen)`. -/
def variant (s : UuidStream) : Option UuidStream :=
  match s.dis2 with
  | d :: dis2 => some { s with ss := s.ss ++ [variantDigit d], dis2 := dis2 }
  | [] => none

/-- A loop with so many iterations. -/
def digits : ℕ → UuidStream → Option UuidStream
  | 0, s => some s
  | n + 1, s => s.digit.bind (digits n)

end UuidStream

/-- `generate_uuid_v4`. -/
def generateUuidV4 (dis : List (Fin 16)) (dis2 : List (Fin 4)) : Option Text := do
  let s ← (⟨[], dis, dis2⟩ : UuidStream).digits 8
  let s ← (s.text ['-']).digits 4
  let s ← (s.text ['-', '4']).digits 3
  let s ← (s.text ['-']).variant
  let s ← s.digits 3
  let s ← (s.text ['-']).digits 12
  return s.ss

/-! ### The digits -/

lemma hexDigit_injective : Function.Injective hexDigit := by
  unfold Function.Injective
  decide

lemma variantDigit_injective : Function.Injective variantDigit := by
  unfold Function.Injective
  decide

lemma isLowerHex_iff {c : Char} : isLowerHex c ↔ ∃ d, hexDigit d = c := by
  constructor
  · intro h
    have hrange : ∀ n : Fin 128, isLowerHex (Char.ofNat n) → ∃ d, hexDigit d = Char.ofNat n := by
      decide
    have hc := hrange ⟨c.toNat, lt_of_isHexDigit (by simp [isHexDigit, h])⟩
    simp only [Char.ofNat_toNat] at hc
    exact hc h
  · rintro ⟨d, rfl⟩
    revert d
    decide

lemma isVariant_iff {c : Char} : isVariant c ↔ ∃ d, variantDigit d = c := by
  constructor
  · intro h
    simp only [isVariant, Bool.or_eq_true, beq_iff_eq] at h
    rcases h with ((rfl | rfl) | rfl) | rfl <;> decide
  · rintro ⟨d, rfl⟩
    revert d
    decide

lemma all_isLowerHex_iff {s : Text} :
    s.all isLowerHex ↔ ∃ ds : List (Fin 16), ds.map hexDigit = s := by
  rw [List.all_eq_true]
  constructor
  · intro h
    induction s with
    | nil => exact ⟨[], rfl⟩
    | cons c s ih =>
      obtain ⟨d, hd⟩ := isLowerHex_iff.mp (h c (by simp))
      obtain ⟨ds, hds⟩ := ih fun x hx => h x (by simp [hx])
      exact ⟨d :: ds, by rw [List.map_cons, hd, hds]⟩
  · rintro ⟨ds, rfl⟩ c hc
    obtain ⟨d, -, rfl⟩ := List.mem_map.mp hc
    exact isLowerHex_iff.mpr ⟨d, rfl⟩

/-! ### The layout -/

/-- Five runs of digits and the digit of the variant, with what stands between them. -/
def layout (a b c : Text) (v : Char) (e f : Text) : Text :=
  a ++ '-' :: (b ++ '-' :: '4' :: (c ++ '-' :: v :: (e ++ '-' :: f)))

lemma layout_inj {a b c e f a' b' c' e' f' : Text} {v v' : Char} (ha : a.length = a'.length)
    (hb : b.length = b'.length) (hc : c.length = c'.length) (he : e.length = e'.length)
    (h : layout a b c v e f = layout a' b' c' v' e' f') :
    a = a' ∧ b = b' ∧ c = c' ∧ v = v' ∧ e = e' ∧ f = f' := by
  obtain ⟨rfl, h₁⟩ := List.append_inj h ha
  obtain ⟨rfl, h₂⟩ := List.append_inj (List.cons.inj h₁).2 hb
  obtain ⟨rfl, h₃⟩ := List.append_inj (List.cons.inj (List.cons.inj h₂).2).2 hc
  obtain ⟨rfl, h₄⟩ := List.cons.inj (List.cons.inj h₃).2
  obtain ⟨rfl, h₅⟩ := List.append_inj h₄ he
  exact ⟨rfl, rfl, rfl, rfl, rfl, (List.cons.inj h₅).2⟩

lemma fits_append {ps qs : List (Char → Bool)} {s : Text} :
    fits (ps ++ qs) s ↔ ∃ s₁ s₂, s = s₁ ++ s₂ ∧ fits ps s₁ ∧ fits qs s₂ := by
  induction ps generalizing s with
  | nil =>
    constructor
    · intro h
      exact ⟨[], s, rfl, rfl, h⟩
    · rintro ⟨s₁, s₂, rfl, h₁, h₂⟩
      cases s₁ with
      | nil => exact h₂
      | cons c s₁ => cases h₁
  | cons p ps ih =>
    cases s with
    | nil =>
      constructor
      · intro h
        cases h
      · rintro ⟨s₁, s₂, hs, h₁, -⟩
        obtain ⟨rfl, rfl⟩ := List.append_eq_nil_iff.mp hs.symm
        cases h₁
    | cons c s =>
      rw [List.cons_append, fits, Bool.and_eq_true, ih]
      constructor
      · rintro ⟨hc, s₁, s₂, rfl, h₁, h₂⟩
        exact ⟨c :: s₁, s₂, rfl, by simp [fits, hc, h₁], h₂⟩
      · rintro ⟨s₁, s₂, hs, h₁, h₂⟩
        cases s₁ with
        | nil => cases h₁
        | cons d s₁ =>
          obtain ⟨rfl, rfl⟩ := List.cons.inj hs
          rw [fits, Bool.and_eq_true] at h₁
          exact ⟨h₁.1, s₁, s₂, rfl, h₁.2, h₂⟩

lemma fits_replicate {p : Char → Bool} {n : ℕ} {s : Text} :
    fits (List.replicate n p) s ↔ s.length = n ∧ s.all p := by
  induction n generalizing s with
  | zero => cases s <;> simp [fits]
  | succ n ih =>
    cases s with
    | nil => simp [List.replicate_succ, fits]
    | cons c s =>
      rw [List.replicate_succ, fits, Bool.and_eq_true, ih, List.all_cons, Bool.and_eq_true]
      simp only [List.length_cons, Nat.add_right_cancel_iff]
      tauto

/-- What the pattern of a UUID asks for. -/
lemma fits_uuidPattern {s : Text} : fits uuidPattern s ↔ ∃ (a b c e f : List (Fin 16)) (v : Fin 4),
    (a.length = 8 ∧ b.length = 4 ∧ c.length = 3 ∧ e.length = 3 ∧ f.length = 12) ∧
      s = layout (a.map hexDigit) (b.map hexDigit) (c.map hexDigit) (variantDigit v)
        (e.map hexDigit) (f.map hexDigit) := by
  have hdigits : ∀ {n : ℕ} {s : Text}, fits (List.replicate n isLowerHex) s ↔
      ∃ ds : List (Fin 16), ds.length = n ∧ s = ds.map hexDigit := by
    intro n s
    rw [fits_replicate, all_isLowerHex_iff]
    constructor
    · rintro ⟨hlen, ds, rfl⟩
      exact ⟨ds, by simpa using hlen, rfl⟩
    · rintro ⟨ds, hlen, rfl⟩
      exact ⟨by simpa using hlen, ds, rfl⟩
  have hone : ∀ {p : Char → Bool} {s : Text}, fits [p] s ↔ ∃ c, p c ∧ s = [c] := by
    intro p s
    rcases s with - | ⟨c, - | ⟨d, s⟩⟩ <;> simp [fits]
  have htwo : ∀ {p q : Char → Bool} {s : Text}, fits [p, q] s ↔ ∃ c d, p c ∧ q d ∧ s = [c, d] := by
    intro p q s
    rcases s with - | ⟨c, - | ⟨d, - | ⟨x, s⟩⟩⟩ <;> simp [fits]
  constructor
  · intro h
    simp only [uuidPattern, fits_append, hdigits, hone, htwo, beq_iff_eq, isVariant_iff] at h
    obtain ⟨-, -, rfl, ⟨-, -, rfl, ⟨-, -, rfl, ⟨-, -, rfl, ⟨-, -, rfl, ⟨-, -, rfl, ⟨-, -, rfl,
      ⟨-, -, rfl, ⟨a, ha, rfl⟩, -, rfl, rfl⟩, ⟨b, hb, rfl⟩⟩, -, -, rfl, rfl, rfl⟩, ⟨c, hc, rfl⟩⟩,
      -, -, rfl, ⟨v, rfl⟩, rfl⟩, ⟨e, he, rfl⟩⟩, -, rfl, rfl⟩, ⟨f, hf, rfl⟩⟩ := h
    exact ⟨a, b, c, e, f, v, ⟨ha, hb, hc, he, hf⟩, by simp [layout]⟩
  · rintro ⟨a, b, c, e, f, v, ⟨ha, hb, hc, he, hf⟩, rfl⟩
    have happ : ∀ {ps qs : List (Char → Bool)} {s t : Text}, fits ps s → fits qs t →
        fits (ps ++ qs) (s ++ t) := fun h h' => fits_append.mpr ⟨_, _, rfl, h, h'⟩
    have hrun : ∀ {n : ℕ} {ds : List (Fin 16)}, ds.length = n →
        fits (List.replicate n isLowerHex) (ds.map hexDigit) := fun hd => hdigits.mpr ⟨_, hd, rfl⟩
    have hdash : fits [(· == '-')] ['-'] := by decide
    have hfour : fits [(· == '-'), (· == '4')] ['-', '4'] := by decide
    have hvariant : fits [(· == '-'), isVariant] ['-', variantDigit v] :=
      htwo.mpr ⟨_, _, by decide, isVariant_iff.mpr ⟨v, rfl⟩, rfl⟩
    have hall := happ (happ (happ (happ (happ (happ (happ (happ (hrun ha) hdash) (hrun hb)) hfour)
      (hrun hc)) hvariant) (hrun he)) hdash) (hrun hf)
    simpa [layout, uuidPattern] using hall

/-! ### The text that is written -/

lemma digits_append {n : ℕ} {ss : Text} {ds dis : List (Fin 16)} {dis2 : List (Fin 4)}
    (h : ds.length = n) : (⟨ss, ds ++ dis, dis2⟩ : UuidStream).digits n
      = some ⟨ss ++ ds.map hexDigit, dis, dis2⟩ := by
  induction n generalizing ss ds with
  | zero =>
    obtain rfl := List.length_eq_zero_iff.mp h
    simp [UuidStream.digits]
  | succ n ih =>
    obtain ⟨d, ds, rfl⟩ := List.exists_cons_of_length_eq_add_one h
    rw [UuidStream.digits, List.cons_append, UuidStream.digit, Option.bind_some,
      ih (by simpa using h)]
    simp

lemma generateUuidV4_append {a b c e f : List (Fin 16)} (v : Fin 4) (ha : a.length = 8)
    (hb : b.length = 4) (hc : c.length = 3) (he : e.length = 3) (hf : f.length = 12) :
    generateUuidV4 (a ++ (b ++ (c ++ (e ++ f)))) [v] = some (layout (a.map hexDigit)
      (b.map hexDigit) (c.map hexDigit) (variantDigit v) (e.map hexDigit) (f.map hexDigit)) := by
  have hlast : ∀ ss, (⟨ss, f, []⟩ : UuidStream).digits 12
      = some ⟨ss ++ f.map hexDigit, [], []⟩ := by
    intro ss
    have hnil : (⟨ss, f ++ [], []⟩ : UuidStream).digits 12
        = some ⟨ss ++ f.map hexDigit, [], []⟩ := digits_append hf
    rwa [List.append_nil] at hnil
  simp only [generateUuidV4, Option.bind_eq_bind, Option.bind_some, UuidStream.text,
    UuidStream.variant, digits_append ha, digits_append hb, digits_append hc, digits_append he,
    hlast]
  simp [layout]

/-- Thirty digits are five runs. -/
lemma exists_runs {dis : List (Fin 16)} (h : dis.length = 30) : ∃ a b c e f : List (Fin 16),
    (a.length = 8 ∧ b.length = 4 ∧ c.length = 3 ∧ e.length = 3 ∧ f.length = 12) ∧
      dis = a ++ (b ++ (c ++ (e ++ f))) := by
  refine ⟨dis.take 8, (dis.drop 8).take 4, (dis.drop 12).take 3, (dis.drop 15).take 3,
    dis.drop 18, by simp [h], ?_⟩
  have h₁ := List.take_append_drop 8 dis
  have h₂ := List.take_append_drop 4 (dis.drop 8)
  have h₃ := List.take_append_drop 3 (dis.drop 12)
  have h₄ := List.take_append_drop 3 (dis.drop 15)
  rw [List.drop_drop] at h₂ h₃ h₄
  rw [h₄, h₃, h₂, h₁]

/-- The thirty digits that `dis` returns, and the one that `dis2` does. -/
abbrev UuidDraws := List.Vector (Fin 16) 30 × Fin 4

lemma generateUuidV4_draws (d : UuidDraws) : ∃ a b c e f : List (Fin 16),
    (a.length = 8 ∧ b.length = 4 ∧ c.length = 3 ∧ e.length = 3 ∧ f.length = 12) ∧
      d.1.toList = a ++ (b ++ (c ++ (e ++ f))) ∧ generateUuidV4 d.1.toList [d.2]
        = some (layout (a.map hexDigit) (b.map hexDigit) (c.map hexDigit) (variantDigit d.2)
          (e.map hexDigit) (f.map hexDigit)) := by
  obtain ⟨a, b, c, e, f, ⟨ha, hb, hc, he, hf⟩, hd⟩ := exists_runs d.1.toList_length
  refine ⟨a, b, c, e, f, ⟨ha, hb, hc, he, hf⟩, hd, ?_⟩
  rw [hd]
  exact generateUuidV4_append d.2 ha hb hc he hf

/-- What is written is a UUID. -/
lemma exists_generated (d : UuidDraws) :
    ∃ u : UuidV4, generateUuidV4 d.1.toList [d.2] = some u.text := by
  obtain ⟨a, b, c, e, f, hlen, -, hd⟩ := generateUuidV4_draws d
  exact ⟨⟨_, fits_uuidPattern.mpr ⟨a, b, c, e, f, d.2, hlen, rfl⟩⟩, hd⟩

/-- Each UUID is written, and for one sequence of digits. -/
lemma existsUnique_draws (u : UuidV4) :
    ∃! d : UuidDraws, generateUuidV4 d.1.toList [d.2] = some u.text := by
  obtain ⟨a, b, c, e, f, v, ⟨ha, hb, hc, he, hf⟩, hu⟩ := fits_uuidPattern.mp u.shape
  refine ⟨(⟨a ++ (b ++ (c ++ (e ++ f))), by simp [ha, hb, hc, he, hf]⟩, v), ?_, fun d hd => ?_⟩
  · rw [hu]
    exact generateUuidV4_append v ha hb hc he hf
  · obtain ⟨a', b', c', e', f', ⟨ha', hb', hc', he', hf'⟩, hd', hd''⟩ := generateUuidV4_draws d
    dsimp only at hd
    rw [hd'', hu] at hd
    obtain ⟨h₁, h₂, h₃, h₄, h₅, h₆⟩ := layout_inj (by simp [ha, ha']) (by simp [hb, hb'])
      (by simp [hc, hc']) (by simp [he, he']) (Option.some.inj hd)
    have hmap := List.map_injective_iff.mpr hexDigit_injective
    refine Prod.ext (Subtype.ext ?_) (variantDigit_injective h₄)
    exact hd'.trans (by rw [hmap h₁, hmap h₂, hmap h₃, hmap h₅, hmap h₆])

/-- **Where the UUIDs come from.**  Whatever the thirty digits of the one distribution and the digit
of the other are, `generate_uuid_v4` writes a UUID of version 4; each of these is written for one
sequence of digits and no other; and there are 2 ^ 122 of them. -/
theorem generated_once :
    (∀ d : UuidDraws, ∃ u : UuidV4, generateUuidV4 d.1.toList [d.2] = some u.text) ∧
      (∀ u : UuidV4, ∃! d : UuidDraws, generateUuidV4 d.1.toList [d.2] = some u.text) ∧
      Nat.card UuidV4 = 2 ^ 122 := by
  refine ⟨exists_generated, existsUnique_draws, ?_⟩
  choose generated hgenerated using exists_generated
  have hinj : Function.Injective generated := by
    intro d d' he
    refine (existsUnique_draws (generated d)).unique (hgenerated d) ?_
    rw [he]
    exact hgenerated d'
  have hsurj : Function.Surjective generated := by
    intro u
    obtain ⟨d, hd, -⟩ := existsUnique_draws u
    exact ⟨d, UuidV4.ext (Option.some.inj ((hgenerated d).symm.trans hd))⟩
  calc Nat.card UuidV4
      = Nat.card UuidDraws :=
        Nat.card_congr (Equiv.ofBijective generated ⟨hinj, hsurj⟩).symm
    _ = 16 ^ 30 * 4 := by
        rw [Nat.card_eq_fintype_card, Fintype.card_prod, card_vector, Fintype.card_fin,
          Fintype.card_fin]
    _ = 2 ^ 122 := by norm_num

end MultiplayerCars.CPPClient
