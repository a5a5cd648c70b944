import Mathlib.Data.Nat.Digits.Defs

/-!
Bytes as a number, and numbers in hex digits.
-/

namespace ProxyAuth.Hex

/-- The number that the bytes are in base 256, the most significant one first. -/
def magnitude (bs : List UInt8) : ℕ := Nat.ofDigits 256 (bs.reverse.map UInt8.toNat)

/-- The hex digits of a number, with zeros in front where there are less than `width`. -/
def padded (width n : ℕ) : List Char := List.leftpad width '0' (Nat.toDigits 16 n)

lemma magnitude_inj {as bs : List UInt8} (hlen : as.length = bs.length)
    (h : magnitude as = magnitude bs) : as = bs := by
  have hlt : ∀ cs : List UInt8, ∀ n ∈ cs.reverse.map UInt8.toNat, n < 256 := by
    intro cs n hn
    obtain ⟨b, -, rfl⟩ := List.mem_map.mp hn
    exact b.toNat_lt
  have hdigits := Nat.ofDigits_inj_of_len_eq (by decide) (by simpa using hlen) (hlt as) (hlt bs) h
  exact List.reverse_inj.mp ((List.map_inj_right fun _ _ => UInt8.toNat_inj.mp).mp hdigits)

/-! ### Reading the digits -/

def digitValue (c : Char) : ℕ := if c.isDigit then c.toNat - 48 else c.toNat - 87

def value (s : List Char) : ℕ := s.foldl (fun n c => 16 * n + digitValue c) 0

lemma digitValue_digitChar {d : ℕ} (h : d < 16) : digitValue d.digitChar = d := by
  revert d
  decide

lemma value_append_singleton (s : List Char) (c : Char) :
    value (s ++ [c]) = 16 * value s + digitValue c := by
  simp [value]

lemma value_toDigits (n : ℕ) : value (Nat.toDigits 16 n) = n := by
  induction n using Nat.strong_induction_on with
  | _ n ih =>
    rcases lt_or_ge n 16 with hn | hn
    · rw [Nat.toDigits_of_lt_base hn, ← List.nil_append [n.digitChar], value_append_singleton,
        digitValue_digitChar hn, value, List.foldl_nil, Nat.mul_zero, Nat.zero_add]
    · rw [Nat.toDigits_of_base_le (by decide) hn, value_append_singleton, ih _ (by omega),
        digitValue_digitChar (Nat.mod_lt n (by decide)), Nat.div_add_mod]

/-- Zeros in front do not count. -/
lemma value_replicate_append (k : ℕ) (s : List Char) :
    value (List.replicate k '0' ++ s) = value s := by
  induction k with
  | zero => rfl
  | succ k ih =>
    rw [← ih, List.replicate_succ, List.cons_append]
    rfl

lemma value_padded (width n : ℕ) : value (padded width n) = n := by
  rw [padded, List.leftpad, value_replicate_append, value_toDigits]

lemma padded_inj {width m n : ℕ} (h : padded width m = padded width n) : m = n := by
  rw [← value_padded width m, h, value_padded]

lemma le_length_padded (width n : ℕ) : width ≤ (padded width n).length := by
  rw [padded, List.leftpad, List.length_append, List.length_replicate]
  omega

end ProxyAuth.Hex
