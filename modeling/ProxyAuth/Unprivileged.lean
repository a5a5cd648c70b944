import ProxyAuth.FileSystem
import Mathlib.Logic.Relation
import Mathlib.Logic.Function.Basic
import Mathlib.Data.Set.Basic

/-!
What can be changed in a file system without privileges.

Users other than root change the entries of directories that are theirs or that group or
others may write, the modes of what is theirs, and make new inodes of their own. Some
directories, the set `A`, are left to root whatever their mode is. What root guards stays as
it is, over any number of such steps, and so does every resolution that looks only there.
-/

namespace ProxyAuth.Unprivileged

open ProxyAuth.Control ProxyAuth.Stat ProxyAuth.FileSystem

variable {ι N : Type}

/-- Owned by root, and nobody else may write it. -/
structure Protected (st : St) : Prop where
  root : st.uid = 0
  group : st.groupWrite = false
  other : st.otherWrite = false

def Guarded (A : Set ι) (fs : FS ι N) (d : ι) : Prop := d ∈ A ∨ Protected (fs.stat d)

/-- Nothing in the file system leads to the inode. -/
structure Free (fs : FS ι N) (i : ι) : Prop where
  not_root : i ≠ fs.root
  not_cwd : i ≠ fs.cwd
  not_entry : ∀ d n, fs.entries d n ≠ some i
  not_parent : ∀ d, fs.parent d ≠ i

/-- What one unprivileged call can do. Adding, removing, renaming and replacing entries are
changes of a directory's map, and an entry may be a new link to any inode. -/
inductive Step [DecidableEq ι] (A : Set ι) (fs : FS ι N) : FS ι N → Prop
  | entries (d : ι) (h : ¬ Guarded A fs d) (m : N → Option ι) :
    Step A fs { fs with entries := Function.update fs.entries d m }
  | parent (d : ι) (h : ¬ Guarded A fs d) (p : ι) :
    Step A fs { fs with parent := Function.update fs.parent d p }
  | chmod (i : ι) (hA : i ∉ A) (howner : (fs.stat i).uid ≠ 0) (mode : BitVec 32)
    (htype : mode &&& sIfmt = (fs.stat i).mode &&& sIfmt) :
    Step A fs { fs with stat := Function.update fs.stat i ⟨mode, (fs.stat i).uid⟩ }
  | create (i : ι) (hA : i ∉ A) (hfree : Free fs i) (st : St) (howner : st.uid ≠ 0)
    (m : N → Option ι) (p : ι) (t : PathName N) :
    Step A fs { fs with
      stat := Function.update fs.stat i st
      entries := Function.update fs.entries i m
      parent := Function.update fs.parent i p
      target := Function.update fs.target i t }

/-! ### What one step keeps -/

/-- What stays of an inode that is reachable: its type and target, its entries when root
guards it, and all of its status when root owns it and nobody else may write it. -/
structure Keeps (A : Set ι) (fs fs' : FS ι N) (i : ι) : Prop where
  isDir : fs'.isDir i = fs.isDir i
  isLink : fs'.isLink i = fs.isLink i
  target : fs'.target i = fs.target i
  guarded : Guarded A fs i → Guarded A fs' i
  entries : Guarded A fs i → fs'.entries i = fs.entries i
  parent : Guarded A fs i → fs'.parent i = fs.parent i
  stat : Protected (fs.stat i) → fs'.stat i = fs.stat i

structure SameBase (fs fs' : FS ι N) : Prop where
  root : fs'.root = fs.root
  cwd : fs'.cwd = fs.cwd
  tooLong : fs'.tooLong = fs.tooLong

variable {A : Set ι} {fs fs' fs'' : FS ι N} {i d : ι}

lemma Keeps.refl (A : Set ι) (fs : FS ι N) (i : ι) : Keeps A fs fs i :=
  ⟨rfl, rfl, rfl, id, fun _ => rfl, fun _ => rfl, fun _ => rfl⟩

lemma Keeps.trans (h : Keeps A fs fs' i) (h' : Keeps A fs' fs'' i) : Keeps A fs fs'' i where
  isDir := h'.isDir.trans h.isDir
  isLink := h'.isLink.trans h.isLink
  target := h'.target.trans h.target
  guarded hg := h'.guarded (h.guarded hg)
  entries hg := (h'.entries (h.guarded hg)).trans (h.entries hg)
  parent hg := (h'.parent (h.guarded hg)).trans (h.parent hg)
  stat hp := by
    have hst := h.stat hp
    exact (h'.stat (hst ▸ hp)).trans hst

lemma SameBase.trans (h : SameBase fs fs') (h' : SameBase fs' fs'') : SameBase fs fs'' :=
  ⟨h'.root.trans h.root, h'.cwd.trans h.cwd, h'.tooLong.trans h.tooLong⟩

/-- Nothing but an inode that root left alone and nothing leads to is made anew. -/
lemma Step.keeps [DecidableEq ι] (h : Step A fs fs') (hi : i ∈ A ∨ ¬ Free fs i) :
    Keeps A fs fs' i := by
  cases h with
  | entries d hd m =>
    have hne : Guarded A fs i → i ≠ d := fun hg h => hd (h ▸ hg)
    exact ⟨rfl, rfl, rfl, id, fun hg => Function.update_of_ne (hne hg) _ _, fun _ => rfl,
      fun _ => rfl⟩
  | parent d hd p =>
    have hne : Guarded A fs i → i ≠ d := fun hg h => hd (h ▸ hg)
    exact ⟨rfl, rfl, rfl, id, fun _ => rfl, fun hg => Function.update_of_ne (hne hg) _ _,
      fun _ => rfl⟩
  | chmod j hA howner mode htype =>
    by_cases hij : i = j
    · subst hij
      have hno : ¬ Guarded A fs i := by
        rintro (h | h)
        · exact hA h
        · exact howner h.root
      have hno' : ¬ Protected (fs.stat i) := fun h => hno (.inr h)
      exact ⟨by simp [FS.isDir, sIsdir, htype], by simp [FS.isLink, sIslnk, htype], rfl,
        fun hg => absurd hg hno, fun _ => rfl, fun _ => rfl, fun h => absurd h hno'⟩
    · have hst : Function.update fs.stat j ⟨mode, (fs.stat j).uid⟩ i = fs.stat i :=
        Function.update_of_ne hij _ _
      exact ⟨by simp [FS.isDir, hst], by simp [FS.isLink, hst], rfl,
        fun hg => hg.imp id fun hp => by simpa [hst] using hp, fun _ => rfl, fun _ => rfl,
        fun _ => hst⟩
  | create j hA hfree st howner m p t =>
    have hij : i ≠ j := by
      rintro rfl
      exact hi.elim hA (fun h => h hfree)
    have hst : Function.update fs.stat j st i = fs.stat i := Function.update_of_ne hij _ _
    exact ⟨by simp [FS.isDir, hst], by simp [FS.isLink, hst], Function.update_of_ne hij _ _,
      fun hg => hg.imp id fun hp => by simpa [hst] using hp,
      fun _ => Function.update_of_ne hij _ _, fun _ => Function.update_of_ne hij _ _, fun _ => hst⟩

lemma Step.sameBase [DecidableEq ι] (h : Step A fs fs') : SameBase fs fs' := by
  cases h <;> exact ⟨rfl, rfl, rfl⟩

/-! ### What nobody can take away -/

/-- The inodes that stay reachable: root's own, and what stands in guarded directories
that stay reachable. -/
inductive Pinned (A : Set ι) (fs : FS ι N) : ι → Prop
  | mem {i : ι} (h : i ∈ A) : Pinned A fs i
  | root : Pinned A fs fs.root
  | cwd : Pinned A fs fs.cwd
  | entry {d i : ι} {n : N} (hd : Pinned A fs d) (hg : Guarded A fs d)
    (h : fs.entries d n = some i) : Pinned A fs i
  | parent {d : ι} (hd : Pinned A fs d) (hg : Guarded A fs d) : Pinned A fs (fs.parent d)

lemma Pinned.mem_or_not_free (h : Pinned A fs i) : i ∈ A ∨ ¬ Free fs i := by
  cases h with
  | mem h => exact .inl h
  | root => exact .inr fun h => h.not_root rfl
  | cwd => exact .inr fun h => h.not_cwd rfl
  | entry _ _ he => exact .inr fun h => h.not_entry _ _ he
  | parent _ _ => exact .inr fun h => h.not_parent _ rfl

lemma Step.pinned [DecidableEq ι] (h : Step A fs fs') (hi : Pinned A fs i) : Pinned A fs' i := by
  have hbase := h.sameBase
  induction hi with
  | mem hA => exact .mem hA
  | root => exact hbase.root ▸ .root
  | cwd => exact hbase.cwd ▸ .cwd
  | @entry d i n hd hg he ih =>
    have hk := h.keeps hd.mem_or_not_free
    exact .entry ih (hk.guarded hg) (by rw [hk.entries hg, he])
  | @parent d hd hg ih =>
    have hk := h.keeps hd.mem_or_not_free
    exact hk.parent hg ▸ .parent ih (hk.guarded hg)

/-! ### Any number of steps -/

/-- What a run keeps: every pinned inode stays pinned and keeps what a step keeps. -/
structure Stable (A : Set ι) (fs fs' : FS ι N) : Prop where
  base : SameBase fs fs'
  pinned : ∀ {i}, Pinned A fs i → Pinned A fs' i
  keeps : ∀ {i}, Pinned A fs i → Keeps A fs fs' i

lemma Stable.trans (h : Stable A fs fs') (h' : Stable A fs' fs'') : Stable A fs fs'' where
  base := h.base.trans h'.base
  pinned hi := h'.pinned (h.pinned hi)
  keeps hi := (h.keeps hi).trans (h'.keeps (h.pinned hi))

lemma Step.stable [DecidableEq ι] (h : Step A fs fs') : Stable A fs fs' :=
  ⟨h.sameBase, h.pinned, fun hi => h.keeps hi.mem_or_not_free⟩

/-- **Whatever the others do, what root guards stays.** -/
theorem stable_of_steps [DecidableEq ι] (h : Relation.ReflTransGen (Step A) fs fs') :
    Stable A fs fs' := by
  induction h with
  | refl => exact ⟨⟨rfl, rfl, rfl⟩, id, fun _ => Keeps.refl A fs _⟩
  | tail _ hstep ih => exact ih.trans hstep.stable

/-! ### Resolutions that look only where root guards -/

/-- A resolution that comes out the same in both file systems, by way of pinned inodes and at
a pinned one. -/
structure Settled (A : Set ι) (fs : FS ι N) (x x' : Walk ι ι) : Prop where
  eq : x' = x
  pinned : ∀ i, x.result = .ok i → Pinned A fs i
  passed : ∀ d ∈ x.events, Pinned A fs d

lemma settled_pure (hi : Pinned A fs i) : Settled A fs (pure i) (pure i) where
  eq := rfl
  pinned j hj := by
    cases hj
    exact hi
  passed _ h := nomatch h

lemma settled_stop (e : ℕ) : Settled A fs (Act.stop e) (Act.stop e) where
  eq := rfl
  pinned _ h := nomatch h
  passed _ h := nomatch h

/-- The lookups of a resolution are all in guarded directories. -/
def LooksAt (A : Set ι) (fs : FS ι N) (x : Walk ι ι) : Prop := ∀ d ∈ x.events, Guarded A fs d

lemma LooksAt.left {x : Walk ι ι} {f : ι → Walk ι ι} (h : LooksAt A fs (x >>= f)) :
    LooksAt A fs x :=
  fun d hd => h d (Act.mem_bind_events.mpr (.inl hd))

lemma LooksAt.right {x : Walk ι ι} {f : ι → Walk ι ι} (h : LooksAt A fs (x >>= f))
    (hx : x.result = .ok i) : LooksAt A fs (f i) :=
  fun d hd => h d (Act.mem_bind_events.mpr (.inr ⟨i, hx, hd⟩))

lemma Settled.bind {x x' : Walk ι ι} {f f' : ι → Walk ι ι} (hx : Settled A fs x x')
    (hf : ∀ i, x.result = .ok i → Settled A fs (f i) (f' i)) :
    Settled A fs (x >>= f) (x' >>= f') := by
  rw [hx.eq]
  rcases hr : x.result with e | i
  · rw [Act.bind_of_error hr, Act.bind_of_error hr]
    exact ⟨rfl, (fun _ h => nomatch h), hx.passed⟩
  · have h := hf i hr
    rw [Act.bind_of_ok hr, Act.bind_of_ok hr, h.eq]
    refine ⟨rfl, h.pinned, fun d hd => ?_⟩
    exact (List.mem_append.mp hd).elim (hx.passed d) (h.passed d)

lemma looksAt_lookup (hg : Guarded A fs d) (c : Comp N) : LooksAt A fs (fs.lookup d c) := by
  cases c with
  | dot => exact fun _ h => nomatch h
  | dotdot =>
    refine Act.forall_bind_events (by simpa using hg) fun _ _ => ?_
    split_ifs <;> exact fun _ h => nomatch h
  | name n =>
    refine Act.forall_bind_events (by simpa using hg) fun _ _ => ?_
    split_ifs
    · exact fun _ h => nomatch h
    · cases fs.entries d n <;> exact fun _ h => nomatch h

/-- A look into a pinned directory before the rest. -/
lemma Settled.emit (hd : Pinned A fs d) {x x' : Walk ι ι} (h : Settled A fs x x') :
    Settled A fs (Act.emit d >>= fun _ => x) (Act.emit d >>= fun _ => x') := by
  rw [Act.bind_of_ok (Act.emit_result d), Act.bind_of_ok (Act.emit_result d), h.eq]
  refine ⟨rfl, h.pinned, fun e he => ?_⟩
  rcases List.mem_append.mp he with he | he
  · obtain rfl : e = d := by simpa using he
    exact hd
  · exact h.passed e he

lemma lookup_settled (hs : Stable A fs fs') {cur : ι} (hcur : Pinned A fs cur) {c : Comp N}
    (h : LooksAt A fs (fs.lookup cur c)) :
    Settled A fs (fs.lookup cur c) (fs'.lookup cur c) := by
  have hk := hs.keeps hcur
  cases c with
  | dot => exact settled_pure hcur
  | dotdot =>
    have hg : Guarded A fs cur := h cur (Act.mem_bind_events.mpr (.inl (by simp)))
    have hp : Pinned A fs (fs.parent cur) := .parent hcur hg
    apply Settled.emit hcur
    rw [hk.parent hg, (hs.keeps hp).isDir]
    split_ifs
    · exact settled_pure hp
    · exact settled_stop enoent
  | name n =>
    have hg : Guarded A fs cur := h cur (Act.mem_bind_events.mpr (.inl (by simp)))
    apply Settled.emit hcur
    rw [hk.entries hg, hs.base.tooLong]
    split_ifs
    · exact settled_stop enametoolong
    · cases he : fs.entries cur n with
      | none => exact settled_stop enoent
      | some i => exact settled_pure (.entry hcur hg he)

lemma startAt_settled (hs : Stable A fs fs') {cur : ι} (hcur : Pinned A fs cur) (p : PathName N) :
    fs'.startAt cur p = fs.startAt cur p ∧ Pinned A fs (fs.startAt cur p) := by
  unfold FS.startAt
  split_ifs
  · exact ⟨hs.base.root, .root⟩
  · exact ⟨rfl, hcur⟩

lemma walkFrom_settled (hs : Stable A fs fs') {follow : Bool}
    {onLink onLink' : List (Comp N) → ι → Walk ι ι}
    (hlink : ∀ cs cur, Pinned A fs cur → LooksAt A fs (onLink cs cur) →
      Settled A fs (onLink cs cur) (onLink' cs cur))
    (cs : List (Comp N)) {cur : ι} (hcur : Pinned A fs cur)
    (h : LooksAt A fs (fs.walkFrom follow onLink cs cur)) :
    Settled A fs (fs.walkFrom follow onLink cs cur) (fs'.walkFrom follow onLink' cs cur) := by
  induction cs generalizing cur with
  | nil => exact settled_pure hcur
  | cons c cs ih =>
    simp only [FS.walkFrom, (hs.keeps hcur).isDir] at h ⊢
    by_cases hdir : fs.isDir cur = true
    · simp only [hdir, if_true] at h ⊢
      have hlook := lookup_settled hs hcur h.left
      apply hlook.bind
      intro i hi
      have hpin := hlook.pinned i hi
      have hrest := h.right hi
      have hstart := startAt_settled hs hcur (fs.target i)
      rw [(hs.keeps hpin).isLink, (hs.keeps hpin).target, hstart.1]
      split_ifs at hrest ⊢ with hl
      · exact hlink _ _ hstart.2 hrest
      · exact ih hpin hrest
    · rw [if_neg hdir, if_neg hdir]
      exact settled_stop enotdir

lemma walk_settled (hs : Stable A fs fs') {follow : Bool} (links : ℕ) (cs : List (Comp N))
    {cur : ι} (hcur : Pinned A fs cur) (h : LooksAt A fs (fs.walk follow links cs cur)) :
    Settled A fs (fs.walk follow links cs cur) (fs'.walk follow links cs cur) := by
  induction links generalizing cs cur with
  | zero => exact walkFrom_settled hs (fun _ _ _ _ => settled_stop eloop) cs hcur h
  | succ links ih => exact walkFrom_settled hs (fun cs cur hc hl => ih cs hc hl) cs hcur h

/-- The lookups of a settled resolution are guarded afterwards, too. -/
lemma Settled.looksAt {x x' : Walk ι ι} (h : Settled A fs x x') (hs : Stable A fs fs')
    (hx : LooksAt A fs x) : LooksAt A fs' x' := by
  rw [h.eq]
  exact fun d hd => (hs.keeps (h.passed d hd)).guarded (hx d hd)

/-- **A path whose lookups are all guarded leads to the same place after any number of
unprivileged steps.** -/
theorem resolve_settled (hs : Stable A fs fs') {follow : Bool} {p : PathName N}
    (h : LooksAt A fs (fs.resolve follow p)) :
    Settled A fs (fs.resolve follow p) (fs'.resolve follow p) := by
  obtain ⟨heq, hpin⟩ := startAt_settled hs Pinned.cwd p
  unfold FS.resolve at h ⊢
  rw [hs.base.cwd, heq]
  exact walk_settled hs _ _ hpin h

end ProxyAuth.Unprivileged
