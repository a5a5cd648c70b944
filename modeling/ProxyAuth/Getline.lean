import Mathlib.Data.List.Basic
import ProxyAuth.CString

/-!
Reading a stream line by line with `getline`.

A stream is the list of bytes from the current position on. Each call delivers the bytes up
to and including the next newline, or what is left when there is none, and stores them with
a terminator at the front of a buffer that is only replaced when the line does not fit.
What stood in the buffer after the terminator stays there.
-/

namespace ProxyAuth.Getline

open ProxyAuth.CString

def newline : Byte := 10

/-- The lines of a stream, in order, each with its newline. -/
def lines : List Byte → List (List Byte)
  | [] => []
  | b :: r =>
    if b = newline then [b] :: lines r
    else match lines r with
      | [] => [[b]]
      | l :: ls => (b :: l) :: ls

/-- The text of a line: the line without its newline. -/
def text (l : List Byte) : List Byte := l.takeWhile (· != newline)

@[simp] lemma lines_nil : lines [] = [] := rfl

/-- A line: some bytes that are no newline, then a newline unless the stream ends there. -/
inductive Line : List Byte → Prop
  | closed {t : List Byte} (h : newline ∉ t) : Line (t ++ [newline])
  | last {t : List Byte} (h : newline ∉ t) (hne : t ≠ []) : Line t

lemma Line.cons {l : List Byte} {b : Byte} (hb : b ≠ newline) (h : Line l) : Line (b :: l) := by
  cases h with
  | @closed t h => exact .closed (t := b :: t) (by simp [h, Ne.symm hb])
  | last h hne => exact .last (by simp [h, Ne.symm hb]) (by simp)

lemma line_of_mem {c l : List Byte} (h : l ∈ lines c) : Line l := by
  induction c generalizing l with
  | nil => simp at h
  | cons b r ih =>
    unfold lines at h
    split_ifs at h with hb
    · rcases List.mem_cons.mp h with rfl | h
      · exact hb ▸ .closed (t := []) (by simp)
      · exact ih h
    · rcases hr : lines r with _ | ⟨l', ls⟩
      · rw [hr] at h
        obtain rfl : l = [b] := by simpa using h
        exact .last (by simpa using Ne.symm hb) (by simp)
      · rw [hr] at h ih
        rcases List.mem_cons.mp h with rfl | h
        · exact (ih List.mem_cons_self).cons hb
        · exact ih (List.mem_cons_of_mem _ h)

lemma text_isPrefix (l : List Byte) : text l <+: l := List.takeWhile_prefix _

/-- A file written as closed lines is read back as those lines. -/
lemma lines_closed (t : List Byte) (ht : newline ∉ t) (r : List Byte) :
    lines (t ++ newline :: r) = (t ++ [newline]) :: lines r := by
  induction t with
  | nil => simp [lines]
  | cons b t ih =>
    have hb : b ≠ newline := fun h => ht (by simp [h])
    rw [List.cons_append, lines, if_neg hb, ih fun h => ht (by simp [h])]
    rfl

/-! ### Taking lines out of a file -/

/-- Lines as they stand in a file: only the last may lack its newline. -/
inductive Layout : List (List Byte) → Prop
  | nil : Layout []
  | last {t : List Byte} (h : newline ∉ t) (hne : t ≠ []) : Layout [t]
  | cons {t : List Byte} {ls : List (List Byte)} (h : newline ∉ t) (hls : Layout ls) :
      Layout ((t ++ [newline]) :: ls)

lemma lines_unclosed {t : List Byte} (h : newline ∉ t) (hne : t ≠ []) : lines t = [t] := by
  induction t with
  | nil => exact absurd rfl hne
  | cons b t ih =>
    have hb : b ≠ newline := fun hb => h (by simp [hb])
    rw [lines, if_neg hb]
    rcases t with _ | ⟨b', t⟩
    · rfl
    · rw [ih (fun hm => h (List.mem_cons_of_mem _ hm)) (by simp)]

lemma Layout.of_lines (c : List Byte) : Layout (lines c) := by
  induction c with
  | nil => exact .nil
  | cons b r ih =>
    rw [lines]
    split_ifs with hb
    · exact hb ▸ .cons (t := []) (by simp) ih
    · cases hr : lines r with
      | nil => exact .last (by simpa using Ne.symm hb) (by simp)
      | cons l ls =>
        rw [hr] at ih
        cases ih with
        | last h hne => exact .last (t := b :: l) (by simp [h, Ne.symm hb]) (by simp)
        | @cons t _ h hls => exact .cons (t := b :: t) (by simp [h, Ne.symm hb]) hls

/-- Lines in this form are the lines of the file they make up. -/
lemma Layout.lines_flatten {ls : List (List Byte)} (h : Layout ls) : lines ls.flatten = ls := by
  induction h with
  | nil => rfl
  | last h hne => simpa using lines_unclosed h hne
  | @cons t ls h hls ih => simpa [ih] using lines_closed t h ls.flatten

lemma Layout.erase {pre post : List (List Byte)} {l : List Byte} (h : Layout (pre ++ l :: post)) :
    Layout (pre ++ post) := by
  induction pre with
  | nil =>
    cases h with
    | last => exact .nil
    | cons _ hls => exact hls
  | cons p pre ih =>
    generalize htail : pre ++ l :: post = tail at *
    rw [List.cons_append, htail] at h
    cases h with
    | last => simp at htail
    | cons hp hls => exact .cons hp (ih hls)

/-- Without one of its lines, a file has the other lines. -/
lemma lines_erase {c : List Byte} {pre post : List (List Byte)} {l : List Byte}
    (h : lines c = pre ++ l :: post) : lines (pre ++ post).flatten = pre ++ post := by
  have hlayout : Layout (pre ++ l :: post) := h ▸ .of_lines c
  exact hlayout.erase.lines_flatten

/-! ### The buffer -/

/-- Where `getline` gets its memory: a block of at least the bytes asked for, and never
fewer than 120, holding anything. -/
structure Alloc where
  block : Buf → ℕ → Buf
  room : ∀ b n, n ≤ (block b n).length
  least : ∀ b n, 120 ≤ (block b n).length

/-- The buffer after `getline` has put the line `l` in it. The empty buffer stands for the
null pointer of the first call. -/
def getline (A : Alloc) (b : Buf) (l : List Byte) : Buf :=
  let b := if b.length < l.length + 1 then A.block b (l.length + 1) else b
  l ++ 0 :: b.drop (l.length + 1)

lemma getline_length (A : Alloc) {b : Buf} (l : List Byte) (hb : b = [] ∨ 120 ≤ b.length) :
    120 ≤ (getline A b l).length := by
  have h1 := A.room b (l.length + 1)
  have h2 := A.least b (l.length + 1)
  unfold getline
  split_ifs with h
  · simp only [List.length_append, List.length_cons, List.length_drop]; omega
  · have hb' : 120 ≤ b.length := by
      rcases hb with rfl | hb
      · simp at h
      · exact hb
    simp only [List.length_append, List.length_cons, List.length_drop]; omega

/-- The string `getline` leaves is the line up to its first NUL. -/
lemma ofBuf_getline (A : Alloc) (b : Buf) (l : List Byte) : ofBuf (getline A b l) = ofBuf l := by
  unfold getline
  exact ofBuf_append_nul_eq l _

/-- Cutting the buffer at index `n` leaves the first `n` bytes of the line, up to a NUL. -/
lemma ofBuf_getline_set (A : Alloc) (b : Buf) (l : List Byte) {n : ℕ}
    (hn : n < (getline A b l).length) :
    ofBuf ((getline A b l).set n 0) = (ofBuf l).take n := by
  rw [List.set_eq_take_append_cons_drop, if_pos hn, ofBuf_append_nul_eq, ofBuf_take,
    ofBuf_getline]

end ProxyAuth.Getline
