import BlockMusic.Decimal.Shortest
import Mathlib.Algebra.Field.Rat

/-!
# The double nearest to a decimal

The double nearest to a decimal depends on nothing but the number that the decimal stands for: not on
zeros at the end of its digits, and not on the two short cuts for powers of ten that are too large or
too small to matter. A double is the nearest one to its own exact decimal. So the shortest decimal of a
double, however it is found, is one that this double is nearest to.
-/

namespace BlockMusic.Double

-- powers are spelled as the definitions spell them, and never computed
theorem natPow_pos {b : Nat} (hb : 0 < b) (k : Nat) : 0 < Nat.pow b k := Nat.pow_pos hb

/-! ## Ratios -/

/-- A common factor does not change how a quotient is rounded. -/
theorem roundDiv_mul_right {t : Nat} (n d : Nat) (ht : 0 < t) :
    roundDiv (n * t) (d * t) = roundDiv n d := by
  have hless : d * t < 2 * (n % d * t) ↔ d < 2 * (n % d) := by
    rw [← Nat.mul_assoc]
    exact Nat.mul_lt_mul_right ht
  have hhalf : 2 * (n % d * t) = d * t ↔ 2 * (n % d) = d := by
    rw [← Nat.mul_assoc]
    exact Nat.mul_left_inj (Nat.ne_of_gt ht)
  simp only [roundDiv, Nat.mul_div_mul_right _ _ ht, Nat.mul_mod_mul_right, hless, hhalf]

theorem roundDiv_mul_self {d : Nat} (n : Nat) (hd : 0 < d) : roundDiv (n * d) d = n := by
  have hone : roundDiv n 1 = n := by simp [roundDiv, Nat.mod_one]
  simpa [hone] using roundDiv_mul_right n 1 hd

/-- Less than half is rounded to nothing. -/
theorem roundDiv_eq_zero {n d : Nat} (h : 2 * n < d) : roundDiv n d = 0 := by
  have hquot : n / d = 0 := Nat.div_eq_of_lt (by omega)
  have hrem : n % d = n := Nat.mod_eq_of_lt (by omega)
  simp only [roundDiv, hquot, hrem]
  rw [if_neg (by omega)]

theorem ofRatio_mul_right {t : Nat} (s : Bool) (n d : Nat) (ht : 0 < t) :
    ofRatio s (n * t) (d * t) = ofRatio s n d := by
  have hscaled : n * t * Nat.pow 2 1074 = n * Nat.pow 2 1074 * t := Nat.mul_right_comm _ _ _
  have hunit : ∀ k, d * t * Nat.pow 2 k = d * Nat.pow 2 k * t := fun k => Nat.mul_right_comm _ _ _
  simp only [ofRatio, hscaled, hunit, Nat.mul_div_mul_right _ _ ht, roundDiv_mul_right _ _ ht]

/-- Equal ratios have the same nearest double. -/
theorem ofRatio_congr {n d n' d' : Nat} (s : Bool) (hd : 0 < d) (hd' : 0 < d')
    (h : n * d' = n' * d) : ofRatio s n d = ofRatio s n' d' := by
  rw [← ofRatio_mul_right s n d hd', ← ofRatio_mul_right s n' d' hd, h, Nat.mul_comm d d']

/-- An exponent beyond the greatest one makes infinity, whatever the significand is. -/
theorem pack_of_lt {k : Nat} (s : Bool) (m : Nat) (hk : 2045 < k) : pack s m k = .infinity s := by
  have hcarried : ∀ m', ¬ IsCanonical m' (if m = Nat.pow 2 53 then k + 1 else k) := by
    rintro m' ⟨-, hle, -⟩
    split at hle
    · omega
    · omega
  simp only [pack, dif_neg (hcarried _)]

theorem pack_of_isCanonical {m k : Nat} (s : Bool) (h : IsCanonical m k) :
    pack s m k = .finite s m k h := by
  have hm : m ≠ Nat.pow 2 53 := Nat.ne_of_lt h.1
  simp only [pack, if_neg hm, dif_pos h]

/-- The sign is carried along. -/
theorem pack_sign {m k m' k' : Nat} {s t : Bool} {h : IsCanonical m' k'}
    (hpack : pack s m k = .finite t m' k' h) (s' : Bool) : pack s' m k = .finite s' m' k' h := by
  unfold pack at hpack ⊢
  dsimp only at hpack ⊢
  generalize (if m = Nat.pow 2 53 then Nat.pow 2 52 else m) = m₁ at hpack ⊢
  generalize (if m = Nat.pow 2 53 then k + 1 else k) = k₁ at hpack ⊢
  by_cases hcanonical : IsCanonical m₁ k₁
  · rw [dif_pos hcanonical] at hpack ⊢
    cases hpack
    rfl
  · rw [dif_neg hcanonical] at hpack
    cases hpack

theorem ofRatio_sign {n d m k : Nat} {s t : Bool} {h : IsCanonical m k}
    (hof : ofRatio s n d = .finite t m k h) (s' : Bool) : ofRatio s' n d = .finite s' m k h := by
  simp only [ofRatio] at hof ⊢
  exact pack_sign hof s'

theorem le_log2_mul_pow {n i : Nat} (h : Nat.pow 2 i ≤ n) (j : Nat) :
    i + j ≤ (n * Nat.pow 2 j).log2 := by
  have hpos : ∀ j, 0 < Nat.pow 2 j := natPow_pos (by decide)
  have hn : 0 < n := Nat.lt_of_lt_of_le (hpos i) h
  have hscaled : n * Nat.pow 2 j ≠ 0 := Nat.ne_of_gt (Nat.mul_pos hn (hpos j))
  rw [Nat.le_log2 hscaled, Nat.pow_add]
  exact Nat.mul_le_mul_right _ h

theorem ofRatio_of_large {n : Nat} (s : Bool) (h : Nat.pow 2 1024 ≤ n) : ofRatio s n 1 = .infinity s := by
  have hlog := le_log2_mul_pow h 1074
  have hexponent : ∀ q : Nat, 1024 + 1074 ≤ q.log2 → 2045 < exponentFor q := by
    intro q hq
    unfold exponentFor
    omega
  simp only [ofRatio, Nat.div_one]
  exact pack_of_lt s _ (hexponent (n * Nat.pow 2 1074) hlog)

theorem ofRatio_of_small {n d : Nat} (s : Bool) (h : 2 * (n * Nat.pow 2 1074) < d) :
    ofRatio s n d = zero s := by
  have hquot : n * Nat.pow 2 1074 / d = 0 := Nat.div_eq_of_lt (by omega)
  have hexponent : exponentFor 0 = 0 := by
    rw [exponentFor, Nat.log2_zero]
  have hround : roundDiv (n * Nat.pow 2 1074) (d * Nat.pow 2 0) = 0 := by
    apply roundDiv_eq_zero
    rwa [show Nat.pow 2 0 = 1 from rfl, Nat.mul_one]
  simp only [ofRatio, hquot, hexponent, hround]
  exact pack_of_isCanonical s isCanonical_zero

theorem ofRatio_zero {d : Nat} (s : Bool) (hd : 0 < d) : ofRatio s 0 d = zero s := by
  apply ofRatio_of_small
  generalize Nat.pow 2 1074 = scale
  omega

/-- A double is the nearest one to its own magnitude. -/
theorem ofRatio_units {m k : Nat} (s : Bool) (h : IsCanonical m k) :
    ofRatio s (units m k) (Nat.pow 2 1074) = .finite s m k h := by
  have hpos : ∀ j, 0 < Nat.pow 2 j := natPow_pos (by decide)
  have hexponent : exponentFor (units m k) = k := by
    obtain ⟨hlt, -, hnormal⟩ := h
    rw [exponentFor, units]
    rcases hnormal with hle | rfl
    · have hlog : (m * Nat.pow 2 k).log2 = 52 + k := by
        have hm : 0 < m := Nat.lt_of_lt_of_le (hpos 52) hle
        have hne : m * Nat.pow 2 k ≠ 0 := Nat.ne_of_gt (Nat.mul_pos hm (hpos k))
        rw [Nat.log2_eq_iff hne, Nat.pow_add, show 52 + k + 1 = 53 + k by omega, Nat.pow_add]
        exact ⟨Nat.mul_le_mul_right _ hle, Nat.mul_lt_mul_of_pos_right hlt (hpos k)⟩
      omega
    · rw [show Nat.pow 2 0 = 1 from rfl, Nat.mul_one]
      by_cases hm : m = 0
      · rw [hm, Nat.log2_zero]
      · have hlog : m.log2 < 53 := (Nat.log2_lt hm).2 hlt
        omega
  have hround : ∀ j, roundDiv (units m k * Nat.pow 2 j) (Nat.pow 2 j * Nat.pow 2 k) = m := by
    intro j
    rw [units, Nat.mul_assoc, Nat.mul_comm (Nat.pow 2 k)]
    exact roundDiv_mul_self m (Nat.mul_pos (hpos j) (hpos k))
  have hquot : ∀ j, units m k * Nat.pow 2 j / Nat.pow 2 j = units m k := fun j =>
    Nat.mul_div_cancel _ (hpos j)
  rw [ofRatio, hquot 1074, hexponent, hround 1074]
  exact pack_of_isCanonical s h

/-! ## Decimals -/

/-- The short cuts for very large and very small powers of ten give what rounding gives. -/
theorem ofDecimal_eq_ofRatio (s : Bool) (n : Nat) (e : Int) :
    ofDecimal s n e = ofRatio s (n * Nat.pow 10 e.toNat) (Nat.pow 10 (-e).toNat) := by
  have hzero : Nat.pow 10 0 = 1 := rfl
  have height : ∀ {i j}, i ≤ 3 * j → Nat.pow 2 i ≤ Nat.pow 10 j := by
    intro i j hij
    calc Nat.pow 2 i ≤ Nat.pow 2 (3 * j) := Nat.pow_le_pow_right (by decide) hij
      _ = Nat.pow (Nat.pow 2 3) j := Nat.pow_mul 2 3 j
      _ ≤ Nat.pow 10 j := Nat.pow_le_pow_left (by decide) j
  unfold ofDecimal
  split
  case isTrue hn =>
    subst hn
    rw [Nat.zero_mul, ofRatio_zero s (natPow_pos (by decide) _)]
  case isFalse hn =>
    have hone : 1 ≤ n := Nat.one_le_iff_ne_zero.2 hn
    split
    case isTrue hlarge =>
      have hneg : (-e).toNat = 0 := by omega
      rw [hneg, hzero, ofRatio_of_large]
      calc Nat.pow 2 1024 ≤ Nat.pow 10 e.toNat := height (i := 1024) (j := e.toNat) (by omega)
        _ ≤ n * Nat.pow 10 e.toNat := Nat.le_mul_of_pos_left _ hone
    case isFalse =>
      split
      case isTrue hsmall =>
        have hpos : e.toNat = 0 := by omega
        rw [hpos, hzero, Nat.mul_one, ofRatio_of_small]
        calc 2 * (n * Nat.pow 2 1074) < 2 * (Nat.pow 2 (n.log2 + 1) * Nat.pow 2 1074) := by
              refine Nat.mul_lt_mul_of_pos_left ?_ (by decide)
              exact Nat.mul_lt_mul_of_pos_right Nat.lt_log2_self (natPow_pos (by decide) _)
          _ = Nat.pow 2 (n.log2 + 1076) := by
              simp only [Nat.pow_eq, ← Nat.pow_add, ← Nat.pow_succ']
          _ ≤ Nat.pow 10 (-e).toNat := height (by omega)
      case isFalse =>
        split
        case isTrue hnonneg =>
          rw [show (-e).toNat = 0 by omega, hzero]
        case isFalse hneg =>
          rw [show e.toNat = 0 by omega, hzero, Nat.mul_one]

/-- A power of ten as a ratio of natural numbers. -/
theorem ten_zpow (e : Int) :
    (10 : ℚ) ^ e = ((Nat.pow 10 e.toNat : Nat) : ℚ) / ((Nat.pow 10 (-e).toNat : Nat) : ℚ) := by
  rcases Int.le_total 0 e with he | he
  · obtain ⟨k, rfl⟩ := Int.eq_ofNat_of_zero_le he
    simp
  · obtain ⟨k, hk⟩ := Int.eq_ofNat_of_zero_le (Int.neg_nonneg_of_nonpos he)
    obtain rfl : e = -(k : Int) := by omega
    simp

/-- Decimals that stand for the same number have the same nearest double. -/
theorem ofDecimal_congr {n n' : Nat} {e e' : Int} (s : Bool)
    (h : (n : ℚ) * 10 ^ e = n' * 10 ^ e') : ofDecimal s n e = ofDecimal s n' e' := by
  have hpos : ∀ j, (Nat.pow 10 j : ℚ) ≠ 0 := fun j => by
    exact_mod_cast Nat.ne_of_gt (natPow_pos (by decide) j)
  rw [ofDecimal_eq_ofRatio, ofDecimal_eq_ofRatio]
  refine ofRatio_congr s (natPow_pos (by decide) _) (natPow_pos (by decide) _) ?_
  rw [ten_zpow, ten_zpow, mul_div_assoc', mul_div_assoc', div_eq_div_iff (hpos _) (hpos _)] at h
  exact_mod_cast h

theorem ofDecimal_sign {n m k : Nat} {e : Int} {s t : Bool} {h : IsCanonical m k}
    (hof : ofDecimal s n e = .finite t m k h) (s' : Bool) : ofDecimal s' n e = .finite s' m k h := by
  rw [ofDecimal_eq_ofRatio] at hof ⊢
  exact ofRatio_sign hof s'

/-- A double is the nearest one to its exact decimal. -/
theorem ofDecimal_exactDigits {m k : Nat} (s : Bool) (h : IsCanonical m k) :
    ofDecimal s (exactDigits m k) (-1074) = .finite s m k h := by
  have hratio : ∀ (j : Nat) (e : Int), e = -j →
      ofDecimal s (units m k * Nat.pow 5 j) e = ofRatio s (units m k) (Nat.pow 2 j) := by
    intro j e he
    have hten : Nat.pow 10 j = Nat.pow 2 j * Nat.pow 5 j := Nat.mul_pow 2 5 j
    rw [ofDecimal_eq_ofRatio, show e.toNat = 0 by omega, show (-e).toNat = j by omega,
      show Nat.pow 10 0 = 1 from rfl, Nat.mul_one, hten]
    exact ofRatio_mul_right _ _ _ (natPow_pos (by decide) j)
  unfold exactDigits
  have hexact := hratio 1074 (-1074) rfl
  rw [hexact]
  exact ofRatio_units s h

/-! ## The shortest decimal -/

/-- A decimal is taken only if the double is the nearest one to it. -/
theorem ofDecimal_of_shortestOfLength? {m k exact length n d : Nat} {e : Int}
    (hcanonical : IsCanonical m k) (h : shortestOfLength? m k exact length n = some (d, e)) (s : Bool) :
    ofDecimal s d e = .finite s m k hcanonical := by
  unfold shortestOfLength? at h
  extract_lets step e' below reads near far at h
  have hreads : ∀ d', reads d' = true → ofDecimal s d' e' = .finite s m k hcanonical := by
    intro d' hread
    dsimp only [reads] at hread
    cases hx : ofDecimal false d' e' with
    | nan => simp [hx] at hread
    | infinity t => simp [hx] at hread
    | finite t m' k' h' =>
        obtain ⟨rfl, rfl⟩ : m' = m ∧ k' = k := by simpa [hx] using hread
        exact ofDecimal_sign hx s
  split_ifs at h with hnear hfar
  · obtain ⟨rfl, rfl⟩ := Prod.mk.inj (Option.some.inj h)
    exact hreads _ hnear
  · obtain ⟨rfl, rfl⟩ := Prod.mk.inj (Option.some.inj h)
    exact hreads _ hfar

/-- A double is the nearest one to its shortest decimal. -/
theorem exists_shortest_eq {m k : Nat} (h : IsCanonical m k) :
    ∃ n e, shortest m k = Decimal.ofScaled n e ∧ ∀ s, ofDecimal s n e = .finite s m k h := by
  unfold shortest
  extract_lets exact length found best
  refine ⟨best.1, best.2, rfl, fun s => ?_⟩
  cases hfound : found with
  | none =>
      have hbest : best = (exact, -1074) := by rw [show best = found.getD _ from rfl, hfound]; rfl
      rw [hbest]
      exact ofDecimal_exactDigits s h
  | some pair =>
      obtain ⟨n, e⟩ := pair
      have hbest : best = (n, e) := by rw [show best = found.getD _ from rfl, hfound]; rfl
      obtain ⟨size, -, hsize⟩ := List.exists_of_findSome?_eq_some hfound
      rw [hbest]
      exact ofDecimal_of_shortestOfLength? h hsize s

end BlockMusic.Double
