import ProxyAuth.Control
import ProxyAuth.Stat

/-!
File systems and path resolution.

A file system maps inodes to their type, owner and mode, directories to their entries and
their parent, and links to their targets. A path is resolved component by component; the
directories in which something was looked up are recorded on the way. A path that asks for
the link itself and one that follows it differ in the last component only.
-/

namespace ProxyAuth.FileSystem

open ProxyAuth.Control ProxyAuth.Stat

/-- One component of a path. -/
inductive Comp (N : Type)
  | dot | dotdot
  | name (n : N)
  deriving DecidableEq

structure PathName (N : Type) where
  absolute : Bool
  comps : List (Comp N)

structure FS (ι N : Type) where
  stat : ι → St
  entries : ι → N → Option ι
  parent : ι → ι
  target : ι → PathName N
  root : ι
  cwd : ι
  tooLong : N → Bool

def enotdir : ℕ := 20
def enametoolong : ℕ := 36
def eloop : ℕ := 40

/-- A resolution: the directories looked into, and the inode or the error it comes to. -/
abbrev Walk (ι : Type) := Act ι ℕ

variable {ι N : Type}

namespace FS

def isDir (fs : FS ι N) (i : ι) : Bool := sIsdir (fs.stat i).mode
def isLink (fs : FS ι N) (i : ι) : Bool := sIslnk (fs.stat i).mode

/-- Where a path starts; a relative one starts at `cur`. -/
def startAt (fs : FS ι N) (cur : ι) (p : PathName N) : ι := if p.absolute then fs.root else cur

/-- One component, looked up in the directory `cur`. -/
def lookup (fs : FS ι N) (cur : ι) : Comp N → Walk ι ι
  | .dot => pure cur
  | .dotdot => do
    Act.emit cur
    if fs.isDir (fs.parent cur) then pure (fs.parent cur) else Act.stop enoent
  | .name n => do
    Act.emit cur
    if fs.tooLong n then Act.stop enametoolong
    else match fs.entries cur n with
      | some i => pure i
      | none => Act.stop enoent

/-- Resolution from `cur` on. A link is followed by `onLink`, except at the end of a path that
asks for the link itself. -/
def walkFrom (fs : FS ι N) (follow : Bool) (onLink : List (Comp N) → ι → Walk ι ι) :
    List (Comp N) → ι → Walk ι ι
  | [], cur => pure cur
  | c :: cs, cur =>
    if fs.isDir cur then
      fs.lookup cur c >>= fun i =>
        if fs.isLink i = true ∧ (follow = true ∨ cs ≠ []) then
          onLink ((fs.target i).comps ++ cs) (fs.startAt cur (fs.target i))
        else walkFrom fs follow onLink cs i
    else Act.stop enotdir

/-- Resolution through at most `links` links. -/
def walk (fs : FS ι N) (follow : Bool) : ℕ → List (Comp N) → ι → Walk ι ι
  | 0 => fs.walkFrom follow fun _ _ => Act.stop eloop
  | links + 1 => fs.walkFrom follow (fs.walk follow links)

/-- The number of links Linux follows in one resolution. -/
def maxLinks : ℕ := 40

def resolve (fs : FS ι N) (follow : Bool) (p : PathName N) : Walk ι ι :=
  fs.walk follow maxLinks p.comps (fs.startAt fs.cwd p)

/-! ### The last component -/

variable {fs : FS ι N}

lemma not_isLink_of_isDir {i : ι} (h : fs.isDir i = true) : fs.isLink i = false :=
  sIslnk_of_sIsdir h

/-- Asking for a link itself: the way to the last component, and one look for it. -/
lemma walkFrom_snoc {onLink onLink' : List (Comp N) → ι → Walk ι ι} {c : Comp N}
    (hlink : ∀ cs cur, onLink (cs ++ [c]) cur =
      onLink' (cs ++ [.dot]) cur >>= fun d => fs.lookup d c) (cs : List (Comp N)) (cur : ι) :
    fs.walkFrom false onLink (cs ++ [c]) cur =
      fs.walkFrom true onLink' (cs ++ [.dot]) cur >>= fun d => fs.lookup d c := by
  induction cs generalizing cur with
  | nil =>
    simp only [List.nil_append, walkFrom]
    by_cases hdir : fs.isDir cur = true
    · have hcur : fs.lookup cur .dot = pure cur := rfl
      have hno : ∀ i, ¬ (fs.isLink i = true ∧ (false = true ∨ ([] : List (Comp N)) ≠ [])) := by
        rintro i ⟨-, h | h⟩
        · cases h
        · exact h rfl
      simp only [hdir, if_true, if_neg (hno _), Act.bind_pure, hcur, Act.pure_bind]
      rw [if_neg (by rw [not_isLink_of_isDir hdir]; rintro ⟨h, -⟩; cases h), Act.pure_bind]
    · simp [hdir]
  | cons c' cs ih =>
    simp only [List.cons_append, walkFrom]
    by_cases hdir : fs.isDir cur = true
    · simp only [hdir, if_true, Act.bind_assoc]
      congr 1
      funext i
      by_cases hl : fs.isLink i = true
      · rw [if_pos ⟨hl, .inr (by simp)⟩, if_pos ⟨hl, .inr (by simp)⟩, ← List.append_assoc, hlink,
          List.append_assoc]
      · rw [if_neg (fun h => hl h.1), if_neg (fun h => hl h.1), ih]
    · simp [hdir]

lemma walk_snoc (links : ℕ) (cs : List (Comp N)) (c : Comp N) (cur : ι) :
    fs.walk false links (cs ++ [c]) cur =
      fs.walk true links (cs ++ [.dot]) cur >>= fun d => fs.lookup d c := by
  induction links generalizing cs cur with
  | zero => exact walkFrom_snoc (fun _ _ => rfl) cs cur
  | succ links ih => exact walkFrom_snoc ih cs cur

/-! ### Links at the end -/

/-- A resolution that does not come to a link is the same with and without following it. -/
lemma walkFrom_follow {onLink onLink' : List (Comp N) → ι → Walk ι ι}
    (hlink : ∀ cs cur, (∀ i, (onLink cs cur).result = .ok i → fs.isLink i = false) →
      onLink' cs cur = onLink cs cur) (cs : List (Comp N)) (cur : ι)
    (h : ∀ i, (fs.walkFrom false onLink cs cur).result = .ok i → fs.isLink i = false) :
    fs.walkFrom true onLink' cs cur = fs.walkFrom false onLink cs cur := by
  induction cs generalizing cur with
  | nil => rfl
  | cons c cs ih =>
    simp only [walkFrom] at h ⊢
    by_cases hdir : fs.isDir cur = true
    · simp only [hdir, if_true] at h ⊢
      rcases hc : (fs.lookup cur c).result with e | i
      · rw [Act.bind_of_error hc, Act.bind_of_error hc]
      · simp only [Act.bind_of_ok hc] at h ⊢
        by_cases hl : fs.isLink i = true
        · by_cases hcs : cs = []
          · -- the last component is a link, which the hypothesis rules out
            rw [if_neg (by simp [hcs]), hcs] at h
            have hno := h i rfl
            rw [hl] at hno
            cases hno
          · rw [if_pos ⟨hl, .inr hcs⟩] at h ⊢
            rw [if_pos ⟨hl, .inr hcs⟩, hlink _ _ h]
        · rw [if_neg (fun hc => hl hc.1)] at h ⊢
          rw [if_neg (fun hc => hl hc.1), ih i h]
    · simp [hdir]

lemma walk_follow (links : ℕ) (cs : List (Comp N)) (cur : ι)
    (h : ∀ i, (fs.walk false links cs cur).result = .ok i → fs.isLink i = false) :
    fs.walk true links cs cur = fs.walk false links cs cur := by
  induction links generalizing cs cur with
  | zero => exact walkFrom_follow (fun _ _ _ => rfl) cs cur h
  | succ links ih => exact walkFrom_follow ih cs cur h

/-- Where following the last link leads somewhere, there is a last component. -/
lemma walkFrom_unfollowed {onLink onLink' : List (Comp N) → ι → Walk ι ι}
    (hlink : ∀ cs cur i, (onLink' cs cur).result = .ok i → ∃ j, (onLink cs cur).result = .ok j)
    (cs : List (Comp N)) (cur i : ι) (h : (fs.walkFrom true onLink' cs cur).result = .ok i) :
    ∃ j, (fs.walkFrom false onLink cs cur).result = .ok j := by
  induction cs generalizing cur with
  | nil => exact ⟨i, h⟩
  | cons c cs ih =>
    simp only [walkFrom] at h ⊢
    by_cases hdir : fs.isDir cur = true
    · rw [if_pos hdir] at h ⊢
      obtain ⟨k, hk, h⟩ := Act.bind_result_ok.mp h
      rw [Act.bind_of_ok hk]
      by_cases hl : fs.isLink k = true
      · rw [if_pos ⟨hl, .inl trivial⟩] at h
        by_cases hcs : cs = []
        · rw [if_neg (by simp [hcs]), hcs]
          exact ⟨k, rfl⟩
        · rw [if_pos ⟨hl, .inr hcs⟩]
          exact hlink _ _ i h
      · rw [if_neg fun hc => hl hc.1] at h ⊢
        exact ih k h
    · rw [if_neg hdir] at h
      cases h

lemma walk_unfollowed (links : ℕ) (cs : List (Comp N)) (cur i : ι)
    (h : (fs.walk true links cs cur).result = .ok i) :
    ∃ j, (fs.walk false links cs cur).result = .ok j := by
  induction links generalizing cs cur i with
  | zero => exact walkFrom_unfollowed (fun _ _ _ h => by cases h) cs cur i h
  | succ links ih => exact walkFrom_unfollowed ih cs cur i h

/-! ### Long names -/

/-- A name the file system cannot hold is never found. -/
lemma lookup_not_tooLong {cur i : ι} {c : Comp N} (h : (fs.lookup cur c).result = .ok i)
    {n : N} (hn : c = .name n) : fs.tooLong n = false := by
  subst hn
  by_contra hlong
  rw [Bool.not_eq_false] at hlong
  simp [lookup, hlong, Act.bind_of_ok (Act.emit_result _)] at h

lemma walkFrom_not_tooLong {follow : Bool} {onLink : List (Comp N) → ι → Walk ι ι} {n : N} {i : ι}
    (hlink : ∀ cs cur, (onLink cs cur).result = .ok i → .name n ∈ cs → fs.tooLong n = false)
    (cs : List (Comp N)) (cur : ι) (h : (fs.walkFrom follow onLink cs cur).result = .ok i)
    (hn : .name n ∈ cs) : fs.tooLong n = false := by
  induction cs generalizing cur with
  | nil => cases hn
  | cons c cs ih =>
    simp only [walkFrom] at h
    by_cases hdir : fs.isDir cur = true
    · rw [if_pos hdir] at h
      obtain ⟨j, hj, h⟩ := Act.bind_result_ok.mp h
      rcases List.mem_cons.mp hn with hc | hcs
      · exact lookup_not_tooLong hj hc.symm
      · split_ifs at h
        · exact hlink _ _ h (List.mem_append_right _ hcs)
        · exact ih j h hcs
    · rw [if_neg hdir] at h
      cases h

lemma walk_not_tooLong {follow : Bool} {n : N} {i : ι} (links : ℕ) (cs : List (Comp N)) (cur : ι)
    (h : (fs.walk follow links cs cur).result = .ok i) (hn : .name n ∈ cs) :
    fs.tooLong n = false := by
  induction links generalizing cs cur with
  | zero => exact walkFrom_not_tooLong (fun _ _ h _ => by cases h) cs cur h hn
  | succ links ih => exact walkFrom_not_tooLong ih cs cur h hn

end FS

end ProxyAuth.FileSystem
