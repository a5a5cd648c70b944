import Mathlib.Data.List.Flatten
import Mathlib.Data.List.Infix
import Mathlib.Tactic.TypeStar

/-!
A stream between two parties.

One party writes at the end, the other reads any piece from the front. A stream of one message
over and over again is cut anywhere by the reads, but nothing of it is lost or comes out of order.
-/

namespace ProxyAuth.Stream

variable {α : Type*}

/-- What was written and what was read so far, with what is still on the way. -/
structure Channel (α : Type*) where
  written : List α
  taken : List α
  pending : List α
  conserved : taken ++ pending = written

namespace Channel

def empty : Channel α := ⟨[], [], [], rfl⟩

/-- Something is written. -/
def send (c : Channel α) (xs : List α) : Channel α :=
  ⟨c.written ++ xs, c.taken, c.pending ++ xs, by rw [← List.append_assoc, c.conserved]⟩

/-- The piece `xs` is read, if it is what comes next. -/
def receive [DecidableEq α] (c : Channel α) (xs : List α) : Option (Channel α) :=
  if h : c.pending = xs ++ c.pending.drop xs.length then
    some ⟨c.written, c.taken ++ xs, c.pending.drop xs.length, by
      rw [List.append_assoc, ← h, c.conserved]⟩
  else none

variable {c c' : Channel α} {xs : List α}

@[simp] lemma send_written : (c.send xs).written = c.written ++ xs := rfl
@[simp] lemma send_taken : (c.send xs).taken = c.taken := rfl
@[simp] lemma send_pending : (c.send xs).pending = c.pending ++ xs := rfl
@[simp] lemma send_nil : c.send [] = c := by
  obtain ⟨written, taken, pending, h⟩ := c
  simp [send]

lemma taken_prefix (c : Channel α) : c.taken <+: c.written := ⟨c.pending, c.conserved⟩

lemma length_taken_le (c : Channel α) : c.taken.length ≤ c.written.length :=
  c.taken_prefix.length_le

variable [DecidableEq α]

lemma receive_eq_some (h : c.receive xs = some c') :
    c'.written = c.written ∧ c'.taken = c.taken ++ xs ∧ c.pending = xs ++ c'.pending := by
  unfold receive at h
  split_ifs at h with hnext
  obtain rfl := Option.some.inj h
  exact ⟨rfl, rfl, hnext⟩

/-- What is on the way can be read. -/
lemma exists_receive (h : xs <+: c.pending) : ∃ c', c.receive xs = some c' := by
  obtain ⟨rest, hrest⟩ := h
  have hnext : c.pending = xs ++ c.pending.drop xs.length := by simp [← hrest]
  exact ⟨_, dif_pos hnext⟩

end Channel

/-! ### The same message over and over -/

/-- The message, `n` times. -/
def Repeats (word : List α) (n : ℕ) (l : List α) : Prop := l = (List.replicate n word).flatten

variable {word l : List α} {n : ℕ}

lemma repeats_zero (word : List α) : Repeats word 0 [] := rfl

lemma Repeats.snoc (h : Repeats word n l) : Repeats word (n + 1) (l ++ word) := by
  rw [Repeats, h, List.replicate_succ', List.flatten_append]
  simp

lemma Repeats.length (h : Repeats word n l) : l.length = n * word.length := by
  rw [h]
  simp

end ProxyAuth.Stream
