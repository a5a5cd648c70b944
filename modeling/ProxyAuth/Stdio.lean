import Mathlib.Data.List.Basic
import Mathlib.Data.List.Infix
import Mathlib.Tactic.TypeStar

/-!
Buffered output.

What a process prints goes to a buffer and from there, in pieces, to the end of a file. A process
that forks leaves a copy of its buffer to the child; what a buffer still holds reaches the file when
the process closes it, and is lost when the process ends in another way.
-/

namespace ProxyAuth.Stdio

variable {β : Type*}

/-! ### Two processes that write to one file -/

/-- The third list is made of the first two, the order in each of them kept. -/
inductive Merge : List β → List β → List β → Prop
  | nil : Merge [] [] []
  | left {b : β} {xs ys zs : List β} (h : Merge xs ys zs) : Merge (b :: xs) ys (b :: zs)
  | right {b : β} {xs ys zs : List β} (h : Merge xs ys zs) : Merge xs (b :: ys) (b :: zs)

namespace Merge

variable {xs ys zs : List β}

lemma nil_right (xs : List β) : Merge xs [] xs := by
  induction xs with
  | nil => exact .nil
  | cons b xs ih => exact .left ih

lemma nil_right_iff : Merge xs [] zs ↔ zs = xs := by
  constructor
  · intro h
    generalize hys : ([] : List β) = ys at h
    induction h with
    | nil => rfl
    | left _ ih => rw [ih hys]
    | right _ _ => cases hys
  · rintro rfl
    exact nil_right _

end Merge

/-! ### One process -/

/-- With `held` in a buffer of `size` bytes, the texts are printed: what reaches the file, and what
the buffer holds in the end. As long as it fits, a text stays in the buffer. -/
inductive Prints (size : ℕ) : List β → List (List β) → List β → List β → Prop
  | nil (held : List β) : Prints size held [] [] held
  | cons {held text out held' : List β} {texts : List (List β)} (k : ℕ)
    (hk : (held ++ text).length ≤ size → k = 0)
    (h : Prints size ((held ++ text).drop k) texts out held') :
    Prints size held (text :: texts) ((held ++ text).take k ++ out) held'

variable {size : ℕ} {held held' out file : List β} {texts before : List (List β)}

/-- Nothing is lost or comes out of order. -/
lemma Prints.conserved (h : Prints size held texts out held') :
    out ++ held' = held ++ texts.flatten := by
  induction h with
  | nil held => simp
  | cons k _ _ ih =>
    rw [List.append_assoc, ih, ← List.append_assoc, List.take_append_drop, List.flatten_cons,
      List.append_assoc]

lemma exists_prints (size : ℕ) (held : List β) (texts : List (List β)) :
    ∃ out held', Prints size held texts out held' := by
  induction texts generalizing held with
  | nil => exact ⟨[], held, .nil held⟩
  | cons text texts ih =>
    obtain ⟨out, held', h⟩ := ih ((held ++ text).drop 0)
    exact ⟨_, held', .cons 0 (fun _ => rfl) h⟩

/-- What fits the buffer stays there. -/
lemma Prints.kept (h : Prints size held texts out held')
    (hfits : (held ++ texts.flatten).length ≤ size) : out = [] ∧ held' = held ++ texts.flatten := by
  induction h with
  | nil held => simp
  | @cons held text out held' texts k hk _ ih =>
    rw [List.flatten_cons, ← List.append_assoc] at hfits ⊢
    have hzero : k = 0 := hk (by
      rw [List.length_append] at hfits
      omega)
    subst hzero
    simpa using ih (by simpa using hfits)

/-- What a process prints, and whether it closes the file in the end. -/
structure Writer (β : Type*) where
  texts : List (List β)
  closes : Bool

def Writer.all (w : Writer β) : List β := w.texts.flatten

/-- What reaches the file from a process with `held` in its buffer. -/
def Delivers (size : ℕ) (held : List β) (w : Writer β) (out : List β) : Prop :=
  ∃ written left, Prints size held w.texts written left ∧
    out = written ++ if w.closes then left else []

lemma delivers_of_closes {w : Writer β} (h : w.closes = true) :
    Delivers size held w out ↔ out = held ++ w.all := by
  constructor
  · rintro ⟨written, left, hprints, rfl⟩
    rw [if_pos h, hprints.conserved, Writer.all]
  · rintro rfl
    obtain ⟨written, left, hprints⟩ := exists_prints size held w.texts
    exact ⟨written, left, hprints, by rw [if_pos h, hprints.conserved, Writer.all]⟩

lemma delivers_of_not_closes {w : Writer β} (h : w.closes = false)
    (hfits : (held ++ w.all).length ≤ size) : Delivers size held w out ↔ out = [] := by
  constructor
  · rintro ⟨written, left, hprints, rfl⟩
    rw [(hprints.kept hfits).1, h]
    rfl
  · rintro rfl
    obtain ⟨written, left, hprints⟩ := exists_prints size held w.texts
    exact ⟨written, left, hprints, by rw [(hprints.kept hfits).1, h]; rfl⟩

/-! ### A process that forks -/

/-- What the file gains when a process has printed `before` and then forks, if it does. -/
def Gains (size : ℕ) (before : List (List β)) (caller : Writer β) (child : Option (Writer β))
    (file : List β) : Prop :=
  ∃ out held own, Prints size [] before out held ∧ Delivers size held caller own ∧
    ∃ copy, (∀ w, child = some w → Delivers size held w copy) ∧ (child = none → copy = []) ∧
      ∃ both, Merge own copy both ∧ file = out ++ both

variable {caller : Writer β}

/-- Without a child, a process that closes the file leaves all that it printed there. -/
theorem gains_alone (hcloses : caller.closes = true) :
    Gains size before caller none file ↔ file = before.flatten ++ caller.all := by
  constructor
  · rintro ⟨out, held, own, hprints, hown, copy, -, hcopy, both, hboth, rfl⟩
    rw [hcopy rfl, Merge.nil_right_iff] at hboth
    rw [hboth, (delivers_of_closes hcloses).mp hown, ← List.append_assoc, hprints.conserved]
    rfl
  · rintro rfl
    obtain ⟨out, held, hprints⟩ := exists_prints size [] before
    refine ⟨out, held, held ++ caller.all, hprints, (delivers_of_closes hcloses).mpr rfl, [],
      by simp, fun _ => rfl, _, Merge.nil_right _, ?_⟩
    rw [← List.append_assoc, hprints.conserved]
    rfl

/-- Where what is printed before the fork fits the buffer, both processes have it. -/
theorem gains_forked {w : Writer β} (hcloses : caller.closes = true)
    (hfits : before.flatten.length ≤ size) (hquiet : w.closes = false → w.all = []) :
    Gains size before caller (some w) file ↔
      Merge (before.flatten ++ caller.all) (if w.closes then before.flatten ++ w.all else [])
        file := by
  have hbefore : ∀ {out held}, Prints size [] before out held → out = [] ∧ held = before.flatten :=
    fun hprints => by simpa using hprints.kept (by simpa using hfits)
  have hcopy : ∀ {copy}, Delivers size before.flatten w copy ↔
      copy = if w.closes then before.flatten ++ w.all else [] := by
    intro copy
    split_ifs with hw
    · exact delivers_of_closes hw
    · have hw : w.closes = false := by simpa using hw
      exact delivers_of_not_closes hw (by simpa [hquiet hw] using hfits)
  constructor
  · rintro ⟨out, held, own, hprints, hown, copy, hchild, -, both, hboth, rfl⟩
    obtain ⟨rfl, rfl⟩ := hbefore hprints
    rw [(delivers_of_closes hcloses).mp hown, hcopy.mp (hchild w rfl)] at hboth
    exact hboth
  · intro hmerge
    obtain ⟨out, held, hprints⟩ := exists_prints size [] before
    obtain ⟨rfl, rfl⟩ := hbefore hprints
    refine ⟨[], before.flatten, _, hprints, (delivers_of_closes hcloses).mpr rfl, _, ?_, nofun,
      file, hmerge, rfl⟩
    intro w' hw'
    obtain rfl := Option.some.inj hw'
    exact hcopy.mpr rfl

end ProxyAuth.Stdio
