import Mathlib.Data.List.Basic
import Mathlib.Tactic.SplitIfs

/-!
Text as UTF-8.

The decoder never fails. Where bytes are not the encoding of a character, it puts one U+FFFD for
as many of them as could still have become one, and one for an end of input in the middle of a
character.
-/

namespace ProxyAuth.Utf8

/-- A string, as its characters. -/
abbrev Text := List Char

def replacement : Char := Char.ofNat 0xFFFD

/-! ### Decoding -/

/-- A character of which some bytes are still to come: what the bytes so far give, how many more
are needed, and between which bounds the next one must be. -/
structure Pending where
  acc : ℕ
  needed : ℕ
  lower : ℕ
  upper : ℕ

/-- The byte after a complete character: what it puts out, and what it begins. -/
def start (b : ℕ) : Text × Option Pending :=
  if b < 0x80 then ([Char.ofNat b], none)
  else if 0xC2 ≤ b ∧ b ≤ 0xDF then ([], some ⟨b - 0xC0, 1, 0x80, 0xBF⟩)
  else if 0xE0 ≤ b ∧ b ≤ 0xEF then
    ([], some ⟨b - 0xE0, 2, if b = 0xE0 then 0xA0 else 0x80, if b = 0xED then 0x9F else 0xBF⟩)
  else if 0xF0 ≤ b ∧ b ≤ 0xF4 then
    ([], some ⟨b - 0xF0, 3, if b = 0xF0 then 0x90 else 0x80, if b = 0xF4 then 0x8F else 0xBF⟩)
  else ([replacement], none)

/-- What is pending, or the whole character, after another byte of it. -/
def Pending.push (p : Pending) (b : ℕ) : Text × Option Pending :=
  let acc := p.acc * 64 + (b - 0x80)
  if p.needed = 1 then ([Char.ofNat acc], none) else ([], some ⟨acc, p.needed - 1, 0x80, 0xBF⟩)

/-- The byte may come next in the character. -/
def Pending.Allows (p : Pending) (b : ℕ) : Prop := p.lower ≤ b ∧ b ≤ p.upper

instance (p : Pending) (b : ℕ) : Decidable (p.Allows b) := inferInstanceAs (Decidable (_ ∧ _))

def step : Option Pending → ℕ → Text × Option Pending
  | none, b => start b
  | some p, b =>
    if p.Allows b then p.push b else (replacement :: (start b).1, (start b).2)

/-- The end of the input. -/
def finish : Option Pending → Text
  | none => []
  | some _ => [replacement]

def decodeFrom : Option Pending → List UInt8 → Text
  | q, [] => finish q
  | q, b :: bs => (step q b.toNat).1 ++ decodeFrom (step q b.toNat).2 bs

def decode (bs : List UInt8) : Text := decodeFrom none bs

/-- What is pending after the bytes. -/
def after (q : Option Pending) (bs : List UInt8) : Option Pending :=
  bs.foldl (fun q b => (step q b.toNat).2) q

/-- What is put out before the end of the input. -/
def output : Option Pending → List UInt8 → Text
  | _, [] => []
  | q, b :: bs => (step q b.toNat).1 ++ output (step q b.toNat).2 bs

lemma decodeFrom_append (q : Option Pending) (bs rest : List UInt8) :
    decodeFrom q (bs ++ rest) = output q bs ++ decodeFrom (after q bs) rest := by
  induction bs generalizing q with
  | nil => rfl
  | cons b bs ih =>
    rw [List.cons_append, decodeFrom, ih, output, List.append_assoc]
    rfl

lemma decodeFrom_eq (q : Option Pending) (bs : List UInt8) :
    decodeFrom q bs = output q bs ++ finish (after q bs) := by
  have h := decodeFrom_append q bs []
  rwa [List.append_nil] at h

/-- No byte disappears: it is put out, or begins a character. -/
lemma start_ne (b : ℕ) : (start b).1 ≠ [] ∨ (start b).2.isSome = true := by
  unfold start
  split_ifs <;> simp

lemma decodeFrom_some_ne (p : Pending) (bs : List UInt8) : decodeFrom (some p) bs ≠ [] := by
  induction bs generalizing p with
  | nil => simp [decodeFrom, finish]
  | cons b bs ih =>
    rw [decodeFrom, step]
    split_ifs with hb
    · unfold Pending.push
      split_ifs with hn
      · simp
      · exact ih _
    · simp

lemma decode_ne {bs : List UInt8} (h : bs ≠ []) : decode bs ≠ [] := by
  rcases bs with _ | ⟨b, bs⟩
  · exact absurd rfl h
  · rw [decode, decodeFrom, step]
    rcases start_ne b.toNat with hout | hpend
    · simp [hout]
    · obtain ⟨p, hp⟩ := Option.isSome_iff_exists.mp hpend
      rw [hp]
      exact fun hnil => decodeFrom_some_ne p bs (List.append_eq_nil_iff.mp hnil).2

/-! ### What a longer input changes -/

/-- The bytes belong to the pending character, and leave it incomplete or make it U+FFFD. -/
def Carries : Pending → List UInt8 → Prop
  | _, [] => True
  | p, b :: bs =>
    p.Allows b.toNat ∧
      if p.needed = 1 then p.acc * 64 + (b.toNat - 0x80) = 0xFFFD ∧ bs = []
      else Carries ⟨p.acc * 64 + (b.toNat - 0x80), p.needed - 1, 0x80, 0xBF⟩ bs

/-- The bytes `rest` after `bs` add nothing to the text: there are none, or `bs` ends in the
middle of a character and they belong to it. -/
def Joins (bs rest : List UInt8) : Prop :=
  match after none bs with
  | none => rest = []
  | some p => Carries p rest

lemma ofNat_eq_replacement {n : ℕ} : Char.ofNat n = replacement ↔ n = 0xFFFD := by
  refine ⟨fun h => ?_, fun h => by rw [h]; rfl⟩
  have hnat := congrArg Char.toNat h
  by_cases hn : n.isValidChar
  · rw [Char.ofNat, dif_pos hn] at hnat
    exact hnat
  · rw [Char.ofNat, dif_neg hn] at hnat
    cases hnat

lemma decodeFrom_some_iff {p : Pending} {bs : List UInt8} :
    decodeFrom (some p) bs = [replacement] ↔ Carries p bs := by
  induction bs generalizing p with
  | nil => exact iff_of_true rfl trivial
  | cons b bs ih =>
    rw [decodeFrom, step, Carries]
    by_cases hb : p.Allows b.toNat
    · rw [if_pos hb, Pending.push, and_iff_right hb]
      split_ifs with hn
      · have hrest : decodeFrom none bs = [] ↔ bs = [] :=
          ⟨fun h => by_contra fun hne => decode_ne hne h, fun h => by rw [h]; rfl⟩
        simp [ofNat_eq_replacement, hrest]
      · exact ih
    · refine iff_of_false ?_ fun h => hb h.1
      rw [if_neg hb, List.cons_append, List.cons.injEq, not_and]
      exact fun _ h => decode_ne (List.cons_ne_nil b bs) h

/-- When a longer input decodes to the same text. -/
theorem decode_append_eq_iff {bs rest : List UInt8} :
    decode (bs ++ rest) = decode bs ↔ Joins bs rest := by
  rw [decode, decode, decodeFrom_append, decodeFrom_eq none bs, List.append_cancel_left_eq, Joins]
  rcases after none bs with _ | p
  · exact ⟨fun h => by_contra fun hne => decode_ne hne h, fun h => by rw [h]; rfl⟩
  · exact decodeFrom_some_iff

lemma needed_of_start {b : ℕ} {p : Pending} (h : (start b).2 = some p) :
    1 ≤ p.needed ∧ p.needed ≤ 3 := by
  unfold start at h
  split_ifs at h <;> simp only [Option.some.injEq] at h <;> simp [← h]

lemma needed_of_step {q : Option Pending} {b : ℕ} {p : Pending}
    (hq : ∀ p ∈ q, 1 ≤ p.needed ∧ p.needed ≤ 3) (h : (step q b).2 = some p) :
    1 ≤ p.needed ∧ p.needed ≤ 3 := by
  rcases q with _ | p'
  · exact needed_of_start h
  · obtain ⟨hpos, hle⟩ := hq p' rfl
    rw [step] at h
    split_ifs at h with hb
    · unfold Pending.push at h
      split_ifs at h with hn
      have hneeded : p.needed = p'.needed - 1 := congrArg Pending.needed (Option.some.inj h).symm
      omega
    · exact needed_of_start h

lemma needed_of_after {q : Option Pending} {bs : List UInt8} {p : Pending}
    (hq : ∀ p ∈ q, 1 ≤ p.needed ∧ p.needed ≤ 3) (h : after q bs = some p) :
    1 ≤ p.needed ∧ p.needed ≤ 3 := by
  induction bs generalizing q with
  | nil => exact hq p h
  | cons b bs ih => exact ih (fun p hp => needed_of_step hq hp) h

lemma length_le_of_carries {p : Pending} {bs : List UInt8} (hpos : 1 ≤ p.needed)
    (h : Carries p bs) : bs.length ≤ p.needed := by
  induction bs generalizing p with
  | nil => exact Nat.zero_le _
  | cons b bs ih =>
    rw [Carries] at h
    rw [List.length_cons]
    split_ifs at h with hn
    · simp [h.2.2, hn]
    · have hlen := ih (by simp only; omega) h.2
      simp only at hlen
      omega

/-- At most three more bytes add nothing. -/
lemma length_le_of_joins {bs rest : List UInt8} (h : Joins bs rest) : rest.length ≤ 3 := by
  rw [Joins] at h
  rcases hafter : after none bs with _ | p
  · rw [hafter] at h
    simp [h]
  · rw [hafter] at h
    obtain ⟨hpos, hle⟩ := needed_of_after (by simp) hafter
    exact Nat.le_trans (length_le_of_carries hpos h) hle

/-! ### Encoding -/

def encodeChar (c : Char) : List UInt8 :=
  let n := c.toNat
  if n < 0x80 then [n.toUInt8]
  else if n < 0x800 then [(0xC0 + n / 64).toUInt8, (0x80 + n % 64).toUInt8]
  else if n < 0x10000 then
    [(0xE0 + n / 4096).toUInt8, (0x80 + n / 64 % 64).toUInt8, (0x80 + n % 64).toUInt8]
  else
    [(0xF0 + n / 262144).toUInt8, (0x80 + n / 4096 % 64).toUInt8, (0x80 + n / 64 % 64).toUInt8,
      (0x80 + n % 64).toUInt8]

def encode (s : Text) : List UInt8 := s.flatMap encodeChar

lemma toNat_toUInt8 {n : ℕ} (h : n < 256) : n.toUInt8.toNat = n := by
  rw [Nat.toUInt8, UInt8.toNat_ofNat', Nat.mod_eq_of_lt h]

lemma toNat_lt (c : Char) : c.toNat < 0xD800 ∨ 0xDFFF < c.toNat ∧ c.toNat < 0x110000 := c.valid

lemma decodeFrom_start {b : ℕ} {p : Pending} (h : b < 256) (hstart : start b = ([], some p))
    (bs : List UInt8) : decodeFrom none (b.toUInt8 :: bs) = decodeFrom (some p) bs := by
  rw [decodeFrom, toNat_toUInt8 h, step, hstart]
  rfl

/-- A byte that follows, with six more bits of the character. -/
lemma decodeFrom_push {p : Pending} {d : ℕ} (hd : d < 64) (hallow : p.Allows (0x80 + d))
    (hneeded : p.needed ≠ 1) (bs : List UInt8) :
    decodeFrom (some p) ((0x80 + d).toUInt8 :: bs) =
      decodeFrom (some ⟨p.acc * 64 + d, p.needed - 1, 0x80, 0xBF⟩) bs := by
  rw [decodeFrom, toNat_toUInt8 (by omega), step, if_pos hallow, Pending.push, if_neg hneeded,
    Nat.add_sub_cancel_left]
  rfl

/-- The last byte of a character. -/
lemma decodeFrom_last {p : Pending} {d : ℕ} (hd : d < 64) (hallow : p.Allows (0x80 + d))
    (hneeded : p.needed = 1) (bs : List UInt8) :
    decodeFrom (some p) ((0x80 + d).toUInt8 :: bs) =
      Char.ofNat (p.acc * 64 + d) :: decodeFrom none bs := by
  rw [decodeFrom, toNat_toUInt8 (by omega), step, if_pos hallow, Pending.push, if_pos hneeded,
    Nat.add_sub_cancel_left]
  rfl

lemma decodeFrom_one {n : ℕ} (h : n < 0x80) (bs : List UInt8) :
    decodeFrom none (n.toUInt8 :: bs) = Char.ofNat n :: decodeFrom none bs := by
  rw [decodeFrom, toNat_toUInt8 (by omega), step, start, if_pos h]
  rfl

lemma decodeFrom_two {n : ℕ} (hlower : 0x80 ≤ n) (hupper : n < 0x800) (bs : List UInt8) :
    decodeFrom none ((0xC0 + n / 64).toUInt8 :: (0x80 + n % 64).toUInt8 :: bs) =
      Char.ofNat n :: decodeFrom none bs := by
  have hstart : start (0xC0 + n / 64) = ([], some ⟨n / 64, 1, 0x80, 0xBF⟩) := by
    rw [start, if_neg (by omega), if_pos (by omega), Nat.add_sub_cancel_left]
  have hn : n / 64 * 64 + n % 64 = n := by omega
  calc decodeFrom none ((0xC0 + n / 64).toUInt8 :: (0x80 + n % 64).toUInt8 :: bs)
      = decodeFrom (some ⟨n / 64, 1, 0x80, 0xBF⟩) ((0x80 + n % 64).toUInt8 :: bs) :=
        decodeFrom_start (by omega) hstart _
    _ = Char.ofNat (n / 64 * 64 + n % 64) :: decodeFrom none bs :=
        decodeFrom_last (by omega) (by simp only [Pending.Allows]; omega) rfl bs
    _ = Char.ofNat n :: decodeFrom none bs := by rw [hn]

lemma decodeFrom_three {n : ℕ} (hlower : 0x800 ≤ n) (hupper : n < 0x10000)
    (hvalid : n < 0xD800 ∨ 0xDFFF < n) (bs : List UInt8) :
    decodeFrom none ((0xE0 + n / 4096).toUInt8 :: (0x80 + n / 64 % 64).toUInt8 ::
      (0x80 + n % 64).toUInt8 :: bs) = Char.ofNat n :: decodeFrom none bs := by
  have hstart : start (0xE0 + n / 4096) = ([], some ⟨n / 4096, 2,
      if 0xE0 + n / 4096 = 0xE0 then 0xA0 else 0x80,
      if 0xE0 + n / 4096 = 0xED then 0x9F else 0xBF⟩) := by
    rw [start, if_neg (by omega), if_neg (by omega), if_pos (by omega), Nat.add_sub_cancel_left]
  have hn : (n / 4096 * 64 + n / 64 % 64) * 64 + n % 64 = n := by omega
  calc decodeFrom none ((0xE0 + n / 4096).toUInt8 :: (0x80 + n / 64 % 64).toUInt8 ::
        (0x80 + n % 64).toUInt8 :: bs)
      = decodeFrom (some ⟨n / 4096, 2, _, _⟩) ((0x80 + n / 64 % 64).toUInt8 ::
          (0x80 + n % 64).toUInt8 :: bs) := decodeFrom_start (by omega) hstart _
    _ = decodeFrom (some ⟨n / 4096 * 64 + n / 64 % 64, 1, 0x80, 0xBF⟩)
          ((0x80 + n % 64).toUInt8 :: bs) :=
        decodeFrom_push (by omega) (by simp only [Pending.Allows]; split_ifs <;> omega) (by simp) _
    _ = Char.ofNat ((n / 4096 * 64 + n / 64 % 64) * 64 + n % 64) :: decodeFrom none bs :=
        decodeFrom_last (by omega) (by simp only [Pending.Allows]; omega) rfl bs
    _ = Char.ofNat n :: decodeFrom none bs := by rw [hn]

lemma decodeFrom_four {n : ℕ} (hlower : 0x10000 ≤ n) (hupper : n < 0x110000) (bs : List UInt8) :
    decodeFrom none ((0xF0 + n / 262144).toUInt8 :: (0x80 + n / 4096 % 64).toUInt8 ::
      (0x80 + n / 64 % 64).toUInt8 :: (0x80 + n % 64).toUInt8 :: bs) =
      Char.ofNat n :: decodeFrom none bs := by
  have hstart : start (0xF0 + n / 262144) = ([], some ⟨n / 262144, 3,
      if 0xF0 + n / 262144 = 0xF0 then 0x90 else 0x80,
      if 0xF0 + n / 262144 = 0xF4 then 0x8F else 0xBF⟩) := by
    rw [start, if_neg (by omega), if_neg (by omega), if_neg (by omega), if_pos (by omega),
      Nat.add_sub_cancel_left]
  have hn : ((n / 262144 * 64 + n / 4096 % 64) * 64 + n / 64 % 64) * 64 + n % 64 = n := by omega
  calc decodeFrom none ((0xF0 + n / 262144).toUInt8 :: (0x80 + n / 4096 % 64).toUInt8 ::
        (0x80 + n / 64 % 64).toUInt8 :: (0x80 + n % 64).toUInt8 :: bs)
      = decodeFrom (some ⟨n / 262144, 3, _, _⟩) ((0x80 + n / 4096 % 64).toUInt8 ::
          (0x80 + n / 64 % 64).toUInt8 :: (0x80 + n % 64).toUInt8 :: bs) :=
        decodeFrom_start (by omega) hstart _
    _ = decodeFrom (some ⟨n / 262144 * 64 + n / 4096 % 64, 2, 0x80, 0xBF⟩)
          ((0x80 + n / 64 % 64).toUInt8 :: (0x80 + n % 64).toUInt8 :: bs) :=
        decodeFrom_push (by omega) (by simp only [Pending.Allows]; split_ifs <;> omega) (by simp) _
    _ = decodeFrom (some ⟨(n / 262144 * 64 + n / 4096 % 64) * 64 + n / 64 % 64, 1, 0x80, 0xBF⟩)
          ((0x80 + n % 64).toUInt8 :: bs) :=
        decodeFrom_push (by omega) (by simp only [Pending.Allows]; omega) (by simp) _
    _ = Char.ofNat (((n / 262144 * 64 + n / 4096 % 64) * 64 + n / 64 % 64) * 64 + n % 64) ::
          decodeFrom none bs :=
        decodeFrom_last (by omega) (by simp only [Pending.Allows]; omega) rfl bs
    _ = Char.ofNat n :: decodeFrom none bs := by rw [hn]

/-- The bytes of a character give that character. -/
lemma decodeFrom_encodeChar (c : Char) (bs : List UInt8) :
    decodeFrom none (encodeChar c ++ bs) = c :: decodeFrom none bs := by
  have hvalid := toNat_lt c
  suffices h : decodeFrom none (encodeChar c ++ bs) =
      Char.ofNat c.toNat :: decodeFrom none bs by rwa [Char.ofNat_toNat] at h
  unfold encodeChar
  generalize c.toNat = n at hvalid
  dsimp only
  split_ifs with h1 h2 h3
  · exact decodeFrom_one h1 bs
  · exact decodeFrom_two (by omega) h2 bs
  · exact decodeFrom_three (by omega) h3 (by omega) bs
  · exact decodeFrom_four (by omega) (by omega) bs

/-- **The round trip.** -/
theorem decode_encode (s : Text) : decode (encode s) = s := by
  induction s with
  | nil => rfl
  | cons c s ih =>
    rw [encode, List.flatMap_cons, decode, decodeFrom_encodeChar]
    exact congrArg (c :: ·) ih

end ProxyAuth.Utf8
