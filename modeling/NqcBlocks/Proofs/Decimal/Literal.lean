import Mathlib.Algebra.Order.Field.Power
import Mathlib.Algebra.Order.Field.Rat
import Mathlib.Data.List.TakeWhile
import Mathlib.Tactic.FieldSimp
import Mathlib.Tactic.Linarith
import Mathlib.Tactic.Ring
import NqcBlocks.Decimal.Numeral

/-!
# The values of numbers and numerals

A finite number has a value (`Number.value?`), and so has a numeral (`Numeral.value?`). The text of a double
is not the numeral of its value but that of a shorter decimal nearby, which is one of the two neighbours of
the value on a grid of decimals. A bound that is on all of these grids is therefore kept: the literal of a
number from 0 to 100 is a numeral from 0 to 100 (`Number.value?_code`).
-/

namespace NqcBlocks

open List

theorem twoPow_cast (n : Nat) : ((twoPow n : Nat) : ℚ) = 2 ^ (n : Int) := by
  rw [zpow_natCast]
  exact Nat.cast_pow 2 n

theorem tenPow_cast (n : Nat) : ((tenPow n : Nat) : ℚ) = 10 ^ (n : Int) := by
  rw [zpow_natCast]
  exact Nat.cast_pow 10 n

/-! ## Reading numerals -/

namespace Numeral

def spanFraction : List Char → List Char × List Char
  | '.' :: rest => spanDigits rest
  | rest => ([], rest)

def value? (cs : List Char) : Option ℚ :=
  let (whole, rest) := spanDigits cs
  let (fraction, rest) := spanFraction rest
  if whole.isEmpty then none
  else (exponent? rest).map fun e : Int => digitsValue (whole ++ fraction) * (10 : ℚ) ^ (e - fraction.length)

def AreDigits (ds : List Char) : Prop := ∀ c ∈ ds, isDigit c = true

variable {ds w f r : List Char}

theorem AreDigits.append (hws : AreDigits w) (hfs : AreDigits f) : AreDigits (w ++ f) := by
  intro c hc
  rcases mem_append.mp hc with hc | hc
  · exact hws c hc
  · exact hfs c hc

theorem areDigits_zeros (k : Nat) : AreDigits (replicate k '0') := by
  intro c hc
  rw [eq_of_mem_replicate hc]
  rfl

theorem areDigits_toDigits (n : Nat) : AreDigits (Nat.toDigits 10 n) := by
  intro c hc
  have h := Nat.isDigit_of_mem_toDigits (by decide) (by decide) hc
  simp only [Char.isDigit, Bool.and_eq_true, decide_eq_true_eq, ge_iff_le] at h
  simp only [isDigit, Bool.and_eq_true, decide_eq_true_eq, Char.le_def]
  exact h

theorem spanDigits_append (hds : AreDigits ds) (hrest : ∀ c, r.head? = some c → isDigit c = false) :
    spanDigits (ds ++ r) = (ds, r) := by
  have htail : r.takeWhile isDigit = [] ∧ r.dropWhile isDigit = r := by
    cases r with
    | nil => exact ⟨rfl, rfl⟩
    | cons c r => simp [hrest c rfl]
  unfold spanDigits
  rw [takeWhile_append_of_pos hds, dropWhile_append_of_pos hds, htail.1, htail.2, append_nil]

theorem digitsValue_append (w f : List Char) :
    digitsValue (w ++ f) = digitsValue w * 10 ^ f.length + digitsValue f := by
  have hloop : ∀ (f : List Char) (n : Nat), f.foldl (fun n c => 10 * n + (c.toNat - 48)) n
      = n * 10 ^ f.length + digitsValue f := by
    intro f
    induction f with
    | nil => intro n; simp [digitsValue]
    | cons c f ih =>
      intro n
      have hcons : digitsValue (c :: f) = (c.toNat - 48) * 10 ^ f.length + digitsValue f := by
        rw [digitsValue, foldl_cons, ih, Nat.mul_zero, Nat.zero_add]
      rw [foldl_cons, ih, hcons, length_cons]
      ring
  unfold digitsValue
  rw [foldl_append, hloop]
  rfl

theorem digitsValue_zeros (k : Nat) : digitsValue (replicate k '0') = 0 := by
  induction k with
  | zero => rfl
  | succ k ih =>
    rw [replicate_succ', digitsValue_append, ih]
    rfl

theorem digitsValue_toDigits (n : Nat) : digitsValue (Nat.toDigits 10 n) = n :=
  Nat.ofDigitChars_ten_toDigits

theorem value?_of_whole (hws : AreDigits w) (hne : w ≠ []) {e : Int} (he : exponent? r = some e)
    (hrest : ∀ c, r.head? = some c → isDigit c = false ∧ c ≠ '.') :
    value? (w ++ r) = some (digitsValue w * (10 : ℚ) ^ e) := by
  have hpoint : spanFraction r = ([], r) := by
    unfold spanFraction
    split
    · exact absurd rfl (hrest '.' rfl).2
    · rfl
  simp only [value?, spanDigits_append hws fun c hc => (hrest c hc).1, hpoint]
  simp [hne, he]

theorem value?_of_point (hws : AreDigits w) (hne : w ≠ []) (hfs : AreDigits f) {e : Int}
    (he : exponent? r = some e) (hrest : ∀ c, r.head? = some c → isDigit c = false) :
    value? (w ++ '.' :: (f ++ r)) = some (digitsValue (w ++ f) * (10 : ℚ) ^ (e - f.length)) := by
  have hpoint : spanFraction ('.' :: (f ++ r)) = (f, r) := spanDigits_append hfs hrest
  simp only [value?, spanDigits_append hws (r := '.' :: (f ++ r)) (by rintro c ⟨⟩; rfl), hpoint]
  simp [hne, he]

end Numeral

/-! ## The text of a decimal -/

namespace Double

open Numeral

variable {ds : List Char}

theorem value?_positional (hds : AreDigits ds) (hne : ds ≠ []) (position : Int) :
    value? (positional ds position) = some (digitsValue ds * (10 : ℚ) ^ (position - ds.length)) := by
  unfold positional
  split
  · next hle =>
    have hread := value?_of_point (w := ['0']) (r := []) (by simp [AreDigits, isDigit]) (by simp)
      ((areDigits_zeros (-position).toNat).append hds) rfl (by simp)
    rw [append_nil] at hread
    refine hread.trans (congrArg some ?_)
    rw [digitsValue_append, digitsValue_append, digitsValue_zeros, length_append, length_replicate,
      show digitsValue ['0'] = 0 from rfl]
    simp only [Nat.zero_mul, Nat.zero_add]
    congr 2
    push_cast
    omega
  · next hpos =>
    split
    · next hlong =>
      have hread := value?_of_point (w := ds ++ replicate (position.toNat - ds.length) '0')
        (f := ['0']) (r := []) (hds.append (areDigits_zeros _)) (by simp [hne]) (areDigits_zeros 1) rfl
        (by simp)
      refine (congrArg value? (by simp)).trans (hread.trans (congrArg some ?_))
      rw [digitsValue_append, digitsValue_append, digitsValue_zeros, length_replicate,
        show digitsValue ['0'] = 0 from rfl]
      have hexp : position - (ds.length : Int) = ((position.toNat - ds.length : Nat) : Int) := by omega
      rw [hexp, zpow_natCast]
      push_cast
      simp only [length_singleton, Nat.cast_one, zero_sub, zpow_neg, zpow_one]
      ring
    · next hshort =>
      have hread := value?_of_point (w := ds.take position.toNat) (f := ds.drop position.toNat) (r := [])
        (fun c hc => hds c (mem_of_mem_take hc)) (by simp [hne]; omega)
        (fun c hc => hds c (mem_of_mem_drop hc)) rfl (by simp)
      rw [append_nil] at hread
      refine hread.trans (congrArg some ?_)
      rw [take_append_drop, length_drop]
      congr 2
      omega

theorem value?_scientific (hds : AreDigits ds) (hne : ds ≠ []) (width : Nat) (position : Int) :
    value? (scientific width ds position) = some (digitsValue ds * (10 : ℚ) ^ (position - ds.length)) := by
  obtain ⟨c, rest, rfl⟩ := exists_cons_of_ne_nil hne
  have hpadded : AreDigits (paddedDigits width (position - 1).natAbs) :=
    (areDigits_zeros _).append (areDigits_toDigits _)
  have hvalue : digitsValue (paddedDigits width (position - 1).natAbs) = (position - 1).natAbs := by
    unfold paddedDigits
    rw [digitsValue_append, digitsValue_zeros, digitsValue_toDigits, Nat.zero_mul, Nat.zero_add]
  have hpaddedNe : paddedDigits width (position - 1).natAbs ≠ [] := by
    unfold paddedDigits
    exact append_ne_nil_of_right_ne_nil _ Nat.toDigits_ne_nil
  have hexponent : exponent? (['e', if position - 1 < 0 then '-' else '+']
      ++ paddedDigits width (position - 1).natAbs) = some (position - 1) := by
    have hspan := spanDigits_append (r := []) hpadded (by simp)
    rw [append_nil] at hspan
    by_cases hneg : position - 1 < 0
    · rw [if_pos hneg]
      simp only [exponent?, splitSign, cons_append, nil_append, hspan, hvalue]
      simp [hpaddedNe, abs_of_neg hneg]
    · rw [if_neg hneg]
      simp only [exponent?, splitSign, cons_append, nil_append, hspan, hvalue]
      simp [hpaddedNe, abs_of_nonneg (not_lt.mp hneg)]
  have hfirst : AreDigits [c] := fun x hx => hds x (by rw [mem_singleton.mp hx]; exact mem_cons_self)
  have hothers : AreDigits rest := fun x hx => hds x (mem_cons_of_mem _ hx)
  unfold scientific
  dsimp only
  rw [drop_succ_cons, drop_zero, take_succ_cons, take_zero]
  cases rest with
  | nil =>
    refine (congrArg value? (by simp)).trans
      ((value?_of_whole hfirst (by simp) hexponent (by rintro x ⟨⟩; decide)).trans ?_)
    simp
  | cons c' rest =>
    refine (congrArg value? (by simp)).trans
      ((value?_of_point hfirst (by simp) hothers hexponent (by rintro x ⟨⟩; rfl)).trans (congrArg some ?_))
    rw [singleton_append]
    congr 2
    simp only [length_cons]
    push_cast
    omega

theorem value?_decimalText (f : DecimalLayout) {d : Decimal} (hd : 0 < d.digits) :
    value? (decimalText f d) = some (d.digits * (10 : ℚ) ^ d.exponent) := by
  obtain ⟨k, hk⟩ : ∃ k, Nat.toDigits 10 d.digits
      = ((Nat.toDigits 10 d.digits).reverse.dropWhile (· == '0')).reverse ++ replicate k '0' := by
    refine ⟨((Nat.toDigits 10 d.digits).reverse.takeWhile (· == '0')).length, ?_⟩
    have hzeros : ((Nat.toDigits 10 d.digits).reverse.takeWhile (· == '0')).reverse
        = replicate ((Nat.toDigits 10 d.digits).reverse.takeWhile (· == '0')).length '0' := by
      rw [eq_replicate_iff, length_reverse]
      exact ⟨rfl, fun c hc => by simpa using mem_takeWhile_imp (mem_reverse.mp hc)⟩
    rw [← hzeros, ← reverse_append, takeWhile_append_dropWhile, reverse_reverse]
  unfold decimalText
  dsimp only
  generalize hds : ((Nat.toDigits 10 d.digits).reverse.dropWhile (· == '0')).reverse = ds at hk ⊢
  have hdigits : AreDigits ds := by
    intro c hc
    refine areDigits_toDigits d.digits c ?_
    rw [hk]
    exact mem_append_left _ hc
  have hvalue : d.digits = digitsValue ds * 10 ^ k := by
    have h := digitsValue_toDigits d.digits
    rwa [hk, digitsValue_append, digitsValue_zeros, length_replicate, Nat.add_zero, eq_comm] at h
  have hne : ds ≠ [] := by
    rintro rfl
    rw [hvalue] at hd
    simp [digitsValue] at hd
  have hlength : ((Nat.toDigits 10 d.digits).length : Int) + d.exponent - ds.length = k + d.exponent := by
    rw [hk, length_append, length_replicate]
    push_cast
    omega
  have hscaled : (digitsValue ds : ℚ) * 10 ^ ((Nat.toDigits 10 d.digits).length + d.exponent - ds.length)
      = d.digits * 10 ^ d.exponent := by
    rw [hlength, zpow_add₀ (by norm_num), zpow_natCast, ← mul_assoc]
    exact congrArg (· * (10 : ℚ) ^ d.exponent) (by rw [hvalue]; push_cast; rfl)
  split
  · rw [value?_positional hdigits hne, hscaled]
  · rw [value?_scientific hdigits hne, hscaled]

/-! ## The shortest decimal -/

theorem tenPow_pos (n : Nat) : 0 < tenPow n := Nat.pow_pos (by decide)

theorem tenPower_pos (g : Int) : 0 < (tenPower g).1 ∧ 0 < (tenPower g).2 := by
  unfold tenPower
  split
  · exact ⟨tenPow_pos _, Nat.one_pos⟩
  · exact ⟨Nat.one_pos, tenPow_pos _⟩

theorem zpow_mul_tenPower (g : Int) : (10 : ℚ) ^ g * (tenPower g).2 = (tenPower g).1 := by
  unfold tenPower
  split
  · next hg =>
    rw [tenPow_cast, Int.toNat_of_nonneg hg, Nat.cast_one, mul_one]
  · next hg =>
    rw [tenPow_cast, Int.toNat_of_nonneg (by omega), ← zpow_add₀ (by norm_num), add_neg_cancel, zpow_zero,
      Nat.cast_one]

theorem exists_mul_tenPower {g : Int} (hg : g ≤ 2) : ∃ K, K * (tenPower g).1 = 100 * (tenPower g).2 := by
  unfold tenPower
  split
  · next hnonneg =>
    refine ⟨tenPow (2 - g).toNat, ?_⟩
    have hsum : (2 - g).toNat + g.toNat = 2 := by omega
    exact (Nat.pow_add 10 _ _).symm.trans (congrArg (10 ^ ·) hsum)
  · exact ⟨_, Nat.mul_one _⟩

theorem pointPosition_le {num den : Nat} (h : num < 100 * den) : pointPosition num den ≤ 2 := by
  have hlength : ∀ k, (Nat.toDigits 10 (num * tenPow k / den)).length ≤ 2 + k := by
    intro k
    rw [Nat.length_toDigits_le_iff (by decide) (by omega), Nat.div_lt_iff_lt_mul (by omega)]
    calc num * tenPow k < 100 * den * tenPow k := Nat.mul_lt_mul_of_pos_right h (tenPow_pos k)
      _ = 100 * tenPow k * den := Nat.mul_right_comm ..
      _ = 10 ^ (2 + k) * den := congrArg (· * den) (Nat.pow_add 10 2 k).symm
  have hlength := hlength 400
  unfold pointPosition
  omega

theorem neighbour?_spec {closed : Bool} {low high top bottom d : Nat} (hlow : 0 < low)
    (h : neighbour? closed low high top bottom = some d) : 0 < d ∧ d ≤ top / bottom + 1 := by
  have hreads : ∀ x : Nat, (if closed then decide (low ≤ x * bottom) && decide (x * bottom ≤ high)
      else decide (low < x * bottom) && decide (x * bottom < high)) = true → 0 < x := by
    intro x hx
    by_contra hzero
    obtain rfl : x = 0 := by omega
    rw [Nat.zero_mul] at hx
    split at hx
    · simp only [Bool.and_eq_true, decide_eq_true_eq] at hx
      omega
    · simp at hx
  have hle : ∀ (p : Prop) [Decidable p], (if p then top / bottom + 1 else top / bottom) ≤ top / bottom + 1 := by
    intro p _
    split <;> omega
  unfold neighbour? at h
  rcases ite_eq_iff.mp h with ⟨hr, hd⟩ | ⟨-, h⟩
  · cases hd
    exact ⟨hreads _ hr, hle _⟩
  rcases ite_eq_iff.mp h with ⟨hr, hd⟩ | ⟨-, hd⟩
  · cases hd
    exact ⟨hreads _ hr, hle _⟩
  · cases hd

theorem decimalOf?_spec {m n : Nat} {q : Int} {d : Decimal} (hm : 0 < m) (hq : q < 2)
    (h : decimalOf? m q n = some d) :
    d.exponent = pointPosition (4 * m) (twoPow (2 - q).toNat) - n ∧ 0 < d.digits ∧
      d.digits ≤ 4 * m * (tenPower d.exponent).2 / (twoPow (2 - q).toNat * (tenPower d.exponent).1) + 1 := by
  have hstep : quarterStep q = (1, twoPow (2 - q).toNat) := if_neg (by omega)
  have hlow : 0 < lowEnd m q := by
    unfold lowEnd
    split <;> omega
  unfold decimalOf? at h
  rw [hstep] at h
  simp only [Nat.mul_one, Option.map_eq_some_iff] at h
  obtain ⟨digits, hdigits, rfl⟩ := h
  exact ⟨rfl, neighbour?_spec (Nat.mul_pos hlow (tenPower_pos _).2) hdigits⟩

theorem shortest_bounds {m : Nat} {q : Int} (hm : 0 < m) (hq : q < 0) (hlt : 4 * m < 100 * twoPow (2 - q).toNat) :
    0 < (shortest m q).digits ∧ (shortest m q).digits * (10 : ℚ) ^ (shortest m q).exponent ≤ 100 := by
  unfold shortest
  cases hfound : (List.range 17).findSome? fun i => decimalOf? m q (i + 1) with
  | none =>
    rw [Option.getD_none]
    refine ⟨hm, ?_⟩
    obtain ⟨k, rfl⟩ : ∃ k : Nat, q = -k := ⟨(-q).toNat, by omega⟩
    have hle : m ≤ 100 * 10 ^ k := by
      have hquarter : twoPow (2 - -(k : Int)).toNat = 4 * 2 ^ k := by
        rw [show (2 - -(k : Int)).toNat = 2 + k by omega]
        exact Nat.pow_add 2 2 k
      have hpow : 2 ^ k ≤ 10 ^ k := Nat.pow_le_pow_left (by decide) k
      omega
    rw [zpow_neg, zpow_natCast, ← div_eq_mul_inv, div_le_iff₀ (by positivity)]
    exact_mod_cast hle
  | some d =>
    rw [Option.getD_some]
    obtain ⟨i, -, hi⟩ := exists_of_findSome?_eq_some hfound
    obtain ⟨hexponent, hpos, hle⟩ := decimalOf?_spec hm (by omega) hi
    refine ⟨hpos, ?_⟩
    have hg : d.exponent ≤ 2 := by
      have := pointPosition_le hlt
      omega
    obtain ⟨K, hK⟩ := exists_mul_tenPower hg
    obtain ⟨hgn, hgd⟩ := tenPower_pos d.exponent
    have hbelow : d.digits ≤ K := by
      refine hle.trans (Nat.div_lt_iff_lt_mul ?_ |>.mpr ?_)
      · exact Nat.mul_pos (Nat.pow_pos (by decide)) hgn
      · calc 4 * m * (tenPower d.exponent).2
          _ < 100 * twoPow (2 - q).toNat * (tenPower d.exponent).2 := Nat.mul_lt_mul_of_pos_right hlt hgd
          _ = 100 * (tenPower d.exponent).2 * twoPow (2 - q).toNat := Nat.mul_right_comm ..
          _ = K * (twoPow (2 - q).toNat * (tenPower d.exponent).1) := by
            rw [← hK, Nat.mul_assoc, Nat.mul_comm (twoPow _)]
    have hscale := zpow_mul_tenPower d.exponent
    have hgdQ : (0 : ℚ) < (tenPower d.exponent).2 := by exact_mod_cast hgd
    refine le_of_mul_le_mul_right ?_ hgdQ
    calc (d.digits : ℚ) * 10 ^ d.exponent * (tenPower d.exponent).2
      _ = d.digits * (tenPower d.exponent).1 := by rw [mul_assoc, hscale]
      _ ≤ K * (tenPower d.exponent).1 := by gcongr
      _ = 100 * (tenPower d.exponent).2 := by exact_mod_cast hK

theorem value?_shortest {m : Nat} {e : Int} (he : e < 0) (hfraction : m % twoPow (-e).toNat ≠ 0)
    (hhi : (m : ℚ) * 2 ^ e ≤ 100) :
    ∃ u, value? (decimalText layout (shortest m e)) = some u ∧ 0 ≤ u ∧ u ≤ 100 := by
  have hm : 0 < m := Nat.pos_of_ne_zero (by rintro rfl; simp at hfraction)
  have hle : m ≤ 100 * twoPow (-e).toNat := by
    have hscaled : (m : ℚ) = m * 2 ^ e * twoPow (-e).toNat := by
      rw [twoPow_cast, Int.toNat_of_nonneg (by omega), mul_assoc, ← zpow_add₀ (by norm_num), add_neg_cancel,
        zpow_zero, mul_one]
    have hbound : (m : ℚ) ≤ 100 * twoPow (-e).toNat := by
      rw [hscaled]
      gcongr
    exact_mod_cast hbound
  -- a hundred itself is whole
  have hne : m ≠ 100 * twoPow (-e).toNat := fun h => hfraction (by rw [h, Nat.mul_mod_left])
  have hquarter : 4 * m < 100 * twoPow (2 - e).toNat := by
    have hfour : twoPow (2 - e).toNat = 4 * twoPow (-e).toNat := by
      rw [show (2 - e).toNat = 2 + (-e).toNat by omega]
      exact Nat.pow_add 2 2 _
    omega
  obtain ⟨hdigits, hle⟩ := shortest_bounds hm he hquarter
  exact ⟨_, value?_decimalText layout hdigits, by positivity, hle⟩

end Double

/-! ## The literal of a number -/

namespace Number

def value? (a : Number) : Option ℚ := a.dyadic?.map fun p => p.1 * (2 : ℚ) ^ p.2

theorem dyadicLt_iff (n₁ e₁ n₂ e₂ : Int) : dyadicLt n₁ e₁ n₂ e₂ = true ↔ (n₁ : ℚ) * 2 ^ e₁ < n₂ * 2 ^ e₂ := by
  have hscaled : ∀ n e : Int, min e₁ e₂ ≤ e →
      (n : ℚ) * 2 ^ e = ((n * (twoPow (e - min e₁ e₂).toNat : Nat) : Int) : ℚ) * 2 ^ min e₁ e₂ := by
    intro n e he
    push_cast
    rw [twoPow_cast, Int.toNat_of_nonneg (by omega), mul_assoc, ← zpow_add₀ (by norm_num), sub_add_cancel]
  rw [hscaled n₁ e₁ (min_le_left ..), hscaled n₂ e₂ (min_le_right ..),
    mul_lt_mul_iff_of_pos_right (by positivity), Int.cast_lt]
  exact decide_eq_true_iff

theorem lt_iff_of_dyadic {a b : Number} {n₁ e₁ n₂ e₂ : Int} (ha : a.dyadic? = some (n₁, e₁))
    (hb : b.dyadic? = some (n₂, e₂)) : a.lt b = true ↔ (n₁ : ℚ) * 2 ^ e₁ < n₂ * 2 ^ e₂ := by
  simp only [lt, ha, hb, dyadicLt_iff]

theorem nan_or_bounds_of_not_lt {lo hi : Int} {x : Number} (hlo : x.lt (.int lo) = false)
    (hhi : (Number.int hi).lt x = false) : x = .double .nan ∨ ∃ v, x.value? = some v ∧ lo ≤ v ∧ v ≤ hi := by
  have hfinite : ∀ n e, x.dyadic? = some (n, e) → ∃ v, x.value? = some v ∧ lo ≤ v ∧ v ≤ hi := by
    intro n e hx
    refine ⟨n * 2 ^ e, by rw [value?, hx]; rfl, ?_, ?_⟩
    · simpa using mt (lt_iff_of_dyadic (b := .int lo) hx rfl).mpr (by simp [hlo])
    · simpa using mt (lt_iff_of_dyadic (a := .int hi) rfl hx).mpr (by simp [hhi])
  cases x with
  | int n => exact .inr (hfinite n 0 rfl)
  | double d =>
    cases d with
    | finite s m e => exact .inr (hfinite _ e rfl)
    | nan => exact .inl rfl
    | infinite s => cases s <;> simp [lt, dyadic?] at hlo hhi

theorem scaleInt_cast {m : Nat} {e : Int} (h : 0 ≤ e ∨ m % twoPow (-e).toNat = 0) :
    (Double.scaleInt m e : ℚ) = m * 2 ^ e := by
  unfold Double.scaleInt
  split
  · next he =>
    rw [Nat.cast_mul, twoPow_cast, Int.toNat_of_nonneg he]
  · next he =>
    obtain ⟨k, rfl⟩ := Nat.dvd_of_mod_eq_zero (h.resolve_left he)
    have hpos : 0 < twoPow (-e).toNat := Nat.pow_pos (by decide)
    rw [Nat.mul_div_cancel_left k hpos, Nat.cast_mul, twoPow_cast, Int.toNat_of_nonneg (by omega),
      mul_right_comm, ← zpow_add₀ (by norm_num), neg_add_cancel, zpow_zero, one_mul]

theorem value?_intText (n : Nat) : Numeral.value? (intText n).toList = some (n : ℚ) := by
  have htext : (intText n).toList = Nat.toDigits 10 n ++ [] := by
    simp [intText]
  rw [htext, Numeral.value?_of_whole (Numeral.areDigits_toDigits n) Nat.toDigits_ne_nil (e := 0) rfl (by simp),
    Numeral.digitsValue_toDigits, zpow_zero, mul_one]

theorem value?_code {x : Number} {v : ℚ} (hx : x.value? = some v) (hlo : 0 ≤ v) (hhi : v ≤ 100) :
    ∃ u, Numeral.value? x.code.toList = some u ∧ 0 ≤ u ∧ u ≤ 100 := by
  -- a whole number is written exactly
  have hwhole : ∀ n : Int, x.wholeAsInt = .int n → v = n →
      ∃ u, Numeral.value? x.code.toList = some u ∧ 0 ≤ u ∧ u ≤ 100 := by
    intro n hn hv
    obtain ⟨k, rfl⟩ : ∃ k : Nat, n = k := Int.eq_ofNat_of_zero_le (by rw [hv] at hlo; exact_mod_cast hlo)
    refine ⟨v, ?_, hlo, hhi⟩
    rw [code, hn, hv]
    exact_mod_cast value?_intText k
  cases x with
  | int n => exact hwhole n rfl (by simpa [value?, dyadic?, eq_comm] using hx)
  | double d =>
    cases d with
    | infinite s => simp [value?, dyadic?] at hx
    | nan => simp [value?, dyadic?] at hx
    | finite s m e =>
      have hv : v = (if s then -(m : ℚ) else m) * 2 ^ e := by
        cases s <;> simpa [value?, dyadic?, eq_comm] using hx
      by_cases hd : (Double.finite s m e).isWhole
      · have hscale := scaleInt_cast (by simpa [Double.isWhole] using hd : 0 ≤ e ∨ m % twoPow (-e).toNat = 0)
        refine hwhole (if s then -(Double.scaleInt m e : Int) else Double.scaleInt m e) ?_ ?_
        · simp [wholeAsInt, hd, Double.truncate?]
        · rw [hv]
          cases s <;> simp [hscale]
      · have hcode : (Number.double (.finite s m e)).wholeAsInt = .double (.finite s m e) := if_neg hd
        simp only [Double.isWhole, Bool.or_eq_true, decide_eq_true_eq, beq_iff_eq, not_or, not_le] at hd
        have hm : 0 < m := Nat.pos_of_ne_zero (by rintro rfl; simp at hd)
        cases s with
        | true =>
          have hpos : (0 : ℚ) < m * 2 ^ e := by positivity
          rw [if_pos rfl, neg_mul] at hv
          linarith
        | false =>
          rw [code, hcode]
          simpa [text, Double.text, hm.ne'] using Double.value?_shortest hd.1 hd.2 (by simpa [hv] using hhi)

end Number

end NqcBlocks
