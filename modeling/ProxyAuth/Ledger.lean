import ProxyAuth.Control
import Mathlib.Data.Finset.Basic
import Mathlib.Data.Finset.Union
import Mathlib.Data.Finset.Image

/-!
What a program holds.

Resources are acquired, used and released. An operation is sound if it acquires what is not held
yet, or uses or releases what is held; every other one strays. The rules say what a piece needs,
what it leaves behind and where it strays; what it does not name stays as it is.
-/

namespace ProxyAuth.Ledger

open ProxyAuth.Control

/-- `astray` is a use or a release of what never was there. -/
inductive Op (ρ : Type*)
  | acquire (r : ρ)
  | use (r : ρ)
  | release (r : ρ)
  | astray
  deriving DecidableEq

universe v

variable {ρ ρ' κ : Type*} {α β : Type v}

def Op.Sound (held : Finset ρ) : Op ρ → Prop
  | .acquire r => r ∉ held
  | .use r | .release r => r ∈ held
  | .astray => False

def Op.map (f : ρ → ρ') : Op ρ → Op ρ'
  | .acquire r => .acquire (f r)
  | .use r => .use (f r)
  | .release r => .release (f r)
  | .astray => .astray

lemma sound_map {held : Finset ρ} (f : ρ ↪ ρ') (op : Op ρ) :
    (op.map f).Sound (held.map f) ↔ op.Sound held := by
  cases op <;> simp [Op.map, Op.Sound]

/-- The process fails, on what is not there. -/
def fault (k : κ) : Act (Op ρ) κ α := do
  Act.emit .astray
  Act.stop k

/-- A call that may fail so. -/
def attempt (x : Except κ α) : Act (Op ρ) κ α :=
  match x with
  | .ok a => pure a
  | .error k => fault k

@[simp] lemma fault_result (k : κ) : (fault k : Act (Op ρ) κ α).result = .error k := rfl

@[simp] lemma attempt_result (x : Except κ α) : (attempt x : Act (Op ρ) κ α).result = x := by
  cases x <;> rfl

/-- The last strays of a run that ends. -/
def lastOf (last : κ → List (Op ρ)) : Except κ α → List (Op ρ)
  | .ok _ => []
  | .error k => last k

/-- The piece with other names for what it holds, and for its ends. -/
def rename {κ' : Type*} (f : ρ → ρ') (fail : κ → κ') (x : Act (Op ρ) κ α) : Act (Op ρ') κ' α :=
  ⟨x.events.map (Op.map f), x.result.mapError fail⟩

variable [DecidableEq ρ]

instance (held : Finset ρ) : DecidablePred (Op.Sound held)
  | .acquire r => inferInstanceAs (Decidable (r ∉ held))
  | .use r | .release r => inferInstanceAs (Decidable (r ∈ held))
  | .astray => inferInstanceAs (Decidable False)

/-- What is held after an operation. -/
def Op.apply (held : Finset ρ) : Op ρ → Finset ρ
  | .acquire r => insert r held
  | .release r => held.erase r
  | .use _ | .astray => held

/-- What is held after a run. -/
def after (held : Finset ρ) (ops : List (Op ρ)) : Finset ρ := ops.foldl Op.apply held

/-- The operations of a run that are not sound. -/
def strays (held : Finset ρ) : List (Op ρ) → List (Op ρ)
  | [] => []
  | op :: ops => (if op.Sound held then [] else [op]) ++ strays (op.apply held) ops

variable {held held' F : Finset ρ} {op : Op ρ} {ops ops' : List (Op ρ)} {r : ρ}

@[simp] lemma after_nil : after held [] = held := rfl

@[simp] lemma after_cons : after held (op :: ops) = after (op.apply held) ops := rfl

@[simp] lemma strays_nil : strays held [] = [] := rfl

lemma strays_of_sound (h : op.Sound held) :
    strays held (op :: ops) = strays (op.apply held) ops := by
  rw [strays, if_pos h, List.nil_append]

lemma strays_of_not_sound (h : ¬ op.Sound held) :
    strays held (op :: ops) = op :: strays (op.apply held) ops := by
  rw [strays, if_neg h, List.singleton_append]

lemma after_append : after held (ops ++ ops') = after (after held ops) ops' :=
  List.foldl_append

lemma strays_append :
    strays held (ops ++ ops') = strays held ops ++ strays (after held ops) ops' := by
  induction ops generalizing held with
  | nil => rfl
  | cons op ops ih => rw [List.cons_append, strays, strays, ih, List.append_assoc, after_cons]

/-- Nothing new is held but what was acquired. -/
lemma mem_of_apply (hr : r ∈ op.apply held) : r ∈ held ∨ op = .acquire r := by
  cases op with
  | acquire s =>
    rcases Finset.mem_insert.mp hr with rfl | hr
    · exact .inr rfl
    · exact .inl hr
  | use s => exact .inl hr
  | release s => exact .inl (Finset.mem_of_mem_erase hr)
  | astray => exact .inl hr

/-- What follows does not mend an operation that strays. -/
lemma strays_bind {x : Act (Op ρ) κ α} (h : op ∈ strays held x.events)
    (f : α → Act (Op ρ) κ β) : op ∈ strays held (x >>= f).events := by
  rcases hres : x.result with k | a
  · rw [Act.bind_of_error hres]
    exact h
  · rw [Act.bind_of_ok hres, strays_append]
    exact List.mem_append_left _ h

/-! ### What is held besides -/

/-- A run neither holds nor acquires any of `F`, and does not stray into it. -/
def Clear (F held : Finset ρ) (ops : List (Op ρ)) : Prop :=
  ∀ r ∈ F, r ∉ held ∧ .acquire r ∉ ops ∧ .use r ∉ strays held ops ∧ .release r ∉ strays held ops

lemma Clear.tail (h : Clear F held (op :: ops)) : Clear F (op.apply held) ops := by
  intro r hr
  obtain ⟨hheld, hacquire, huse, hrelease⟩ := h r hr
  have hsub : strays (op.apply held) ops ⊆ strays held (op :: ops) := by
    rw [strays]
    exact List.subset_append_right _ _
  refine ⟨fun hmem => ?_, fun hmem => hacquire (List.mem_cons_of_mem _ hmem),
    fun hmem => huse (hsub hmem), fun hmem => hrelease (hsub hmem)⟩
  rcases mem_of_apply hmem with hmem | rfl
  · exact hheld hmem
  · exact hacquire List.mem_cons_self

/-- Whether the operation is sound does not depend on what is held besides. -/
lemma Clear.sound_iff (h : Clear F held (op :: ops)) : op.Sound (held ∪ F) ↔ op.Sound held := by
  cases op with
  | acquire r =>
    have hnot : r ∉ F := fun hr => (h r hr).2.1 List.mem_cons_self
    simp [Op.Sound, hnot]
  | use r =>
    refine ⟨fun hr => ?_, fun hr => Finset.mem_union_left F hr⟩
    by_contra hsound
    have hmem : r ∈ F := (Finset.mem_union.mp hr).resolve_left hsound
    rw [Clear, strays_of_not_sound hsound] at h
    exact (h r hmem).2.2.1 List.mem_cons_self
  | release r =>
    refine ⟨fun hr => ?_, fun hr => Finset.mem_union_left F hr⟩
    by_contra hsound
    have hmem : r ∈ F := (Finset.mem_union.mp hr).resolve_left hsound
    rw [Clear, strays_of_not_sound hsound] at h
    exact (h r hmem).2.2.2 List.mem_cons_self
  | astray => rfl

lemma Clear.apply_union (h : Clear F held (op :: ops)) :
    op.apply (held ∪ F) = op.apply held ∪ F := by
  cases op with
  | acquire r => exact (Finset.insert_union r held F).symm
  | use r => rfl
  | release r =>
    have hnot : r ∉ F := by
      intro hr
      have hsound := h.sound_iff.mp (show r ∈ held ∪ F from Finset.mem_union_right _ hr)
      exact (h r hr).1 hsound
    change (held ∪ F).erase r = held.erase r ∪ F
    rw [Finset.erase_union_distrib, Finset.erase_eq_of_notMem hnot]
  | astray => rfl

lemma Clear.after_union (h : Clear F held ops) : after (held ∪ F) ops = after held ops ∪ F := by
  induction ops generalizing held with
  | nil => rfl
  | cons op ops ih => rw [after_cons, after_cons, h.apply_union, ih h.tail]

lemma Clear.strays_union (h : Clear F held ops) : strays (held ∪ F) ops = strays held ops := by
  induction ops generalizing held with
  | nil => rfl
  | cons op ops ih =>
    rw [strays, strays, h.apply_union, ih h.tail]
    simp only [h.sound_iff]

lemma mem_insertIf {c : Prop} [Decidable c] {s : ρ} :
    s ∈ (if c then insert r held else held) ↔ s ∈ held ∨ c ∧ s = r := by
  split_ifs with hc
  · simp [hc, or_comm]
  · simp [hc]

lemma mem_eraseIf {c : Prop} [Decidable c] {s : ρ} :
    s ∈ (if c then held.erase r else held) ↔ s ∈ held ∧ (c → s ≠ r) := by
  split_ifs with hc
  · simp [hc, and_comm]
  · simp [hc]

/-! ### The rules -/

/-- Where `P` is held, `x` leaves `Q a` behind if it returns `a`. Its strays are those of `L`, and
then, if it fails, a last one that is astray; it acquires nothing outside of `N`. -/
structure Balances (N : Set ρ) (P : Finset ρ) (L : List (Op ρ)) (x : Act (Op ρ) κ α)
    (Q : α → Finset ρ) : Prop where
  strays : strays P x.events = L ++ lastOf (fun _ => [.astray]) x.result
  leaves : ∀ a, x.result = .ok a → after P x.events = Q a
  names : ∀ r, .acquire r ∈ x.events → r ∈ N

namespace Balances

variable {N N' : Set ρ} {P P' : Finset ρ} {L : List (Op ρ)} {x : Act (Op ρ) κ α}
  {Q Q' : α → Finset ρ} {R : β → Finset ρ} {f : α → Act (Op ρ) κ β}

lemma pure {a : α} (h : P = Q a) : Balances N P [] (Pure.pure a : Act (Op ρ) κ α) Q := by
  refine ⟨rfl, fun b hb => ?_, by simp⟩
  obtain rfl := Except.ok.inj hb
  exact h

lemma fault (k : κ) : Balances N P [] (Ledger.fault k : Act (Op ρ) κ α) Q := by
  refine ⟨rfl, (fun a ha => nomatch ha), fun r hr => ?_⟩
  rcases List.mem_singleton.mp hr

lemma attempt (y : Except κ α) :
    Balances N P [] (Ledger.attempt y : Act (Op ρ) κ α) fun _ => P := by
  rcases y with k | a
  · exact fault k
  · exact pure rfl

lemma acquire (hr : r ∉ P) (hN : r ∈ N) :
    Balances N P [] (Act.emit (.acquire r) : Act (Op ρ) κ PUnit) fun _ => insert r P := by
  refine ⟨strays_of_sound hr, fun _ _ => rfl, by simp [hN]⟩

lemma use (hr : r ∈ P) :
    Balances N P [] (Act.emit (.use r) : Act (Op ρ) κ PUnit) fun _ => P :=
  ⟨strays_of_sound hr, fun _ _ => rfl, by simp⟩

lemma release (hr : r ∈ P) :
    Balances N P [] (Act.emit (.release r) : Act (Op ρ) κ PUnit) fun _ => P.erase r :=
  ⟨strays_of_sound hr, fun _ _ => rfl, by simp⟩

/-- What is not held is released all the same. -/
lemma missing (hr : r ∉ P) :
    Balances N P [.release r] (Act.emit (.release r) : Act (Op ρ) κ PUnit) fun _ => P :=
  ⟨strays_of_not_sound hr, fun _ _ => Finset.erase_eq_of_notMem hr, by simp⟩

lemma acquireIf {c : Prop} [Decidable c] (hr : c → r ∉ P) (hN : c → r ∈ N) :
    Balances N P [] (Act.emitIf c (.acquire r) : Act (Op ρ) κ PUnit)
      fun _ => if c then insert r P else P := by
  unfold Act.emitIf
  split_ifs with hc
  · exact acquire (hr hc) (hN hc)
  · exact pure rfl

lemma useIf {c : Prop} [Decidable c] (hr : c → r ∈ P) :
    Balances N P [] (Act.emitIf c (.use r) : Act (Op ρ) κ PUnit) fun _ => P := by
  unfold Act.emitIf
  split_ifs with hc
  · exact use (hr hc)
  · exact pure rfl

lemma releaseIf {c : Prop} [Decidable c] (hr : c → r ∈ P) :
    Balances N P [] (Act.emitIf c (.release r) : Act (Op ρ) κ PUnit)
      fun _ => if c then P.erase r else P := by
  unfold Act.emitIf
  split_ifs with hc
  · exact release (hr hc)
  · exact pure rfl

lemma bind (hx : Balances N P L x Q)
    (hf : ∀ a, x.result = .ok a → Balances N (Q a) [] (f a) R) : Balances N P L (x >>= f) R := by
  rcases hres : x.result with k | a
  · rw [Act.bind_of_error hres]
    have hstrays := hx.strays
    rw [hres] at hstrays
    exact ⟨hstrays, (fun b hb => nomatch hb), hx.names⟩
  · have hafter := hx.leaves a hres
    have hstrays := hx.strays
    rw [hres, lastOf, List.append_nil] at hstrays
    have hrest := hf a hres
    rw [Act.bind_of_ok hres]
    refine ⟨?_, fun b hb => ?_, fun r hr => ?_⟩
    · rw [strays_append, hstrays, hafter, hrest.strays, List.nil_append]
    · rw [after_append, hafter, hrest.leaves b hb]
    · rcases List.mem_append.mp hr with hr | hr
      · exact hx.names r hr
      · exact hrest.names r hr

/-- The first piece does not fail, and the strays are those of the second. -/
lemma andThen {a : α} (hx : Balances N P [] x Q) (ha : x.result = .ok a)
    (hf : Balances N (Q a) L (f a) R) : Balances N P L (x >>= f) R := by
  have hstrays := hx.strays
  rw [ha] at hstrays
  rw [Act.bind_of_ok ha]
  refine ⟨?_, fun b hb => ?_, fun r hr => ?_⟩
  · rw [strays_append, hstrays, hx.leaves a ha, hf.strays]
    rfl
  · rw [after_append, hx.leaves a ha, hf.leaves b hb]
  · rcases List.mem_append.mp hr with hr | hr
    · exact hx.names r hr
    · exact hf.names r hr

lemma consequence (h : Balances N P L x Q) (hN : N ⊆ N') (hP : P = P')
    (hQ : ∀ a, x.result = .ok a → Q a = Q' a) : Balances N' P' L x Q' :=
  ⟨hP ▸ h.strays, fun a ha => (hP ▸ h.leaves a ha).trans (hQ a ha), fun r hr => hN (h.names r hr)⟩

/-- **Frame rule.** What the piece does not name stays held. -/
lemma frame (h : Balances N P L x Q) (F : Finset ρ) (hF : ∀ r ∈ F, r ∉ P ∧ r ∉ N)
    (hL : ∀ r ∈ F, .use r ∉ L ∧ .release r ∉ L) :
    Balances N (P ∪ F) L x fun a => Q a ∪ F := by
  have hlast : ∀ op ∈ lastOf (fun _ => [.astray]) x.result, op = (.astray : Op ρ) := by
    intro op hop
    rcases hres : x.result with k | a <;> rw [hres] at hop
    · exact List.mem_singleton.mp hop
    · exact absurd hop List.not_mem_nil
  have hclear : Clear F P x.events := by
    intro r hr
    refine ⟨(hF r hr).1, fun hmem => (hF r hr).2 (h.names r hmem), fun hmem => ?_, fun hmem => ?_⟩
    all_goals
      rw [h.strays] at hmem
      rcases List.mem_append.mp hmem with hmem | hmem
    · exact (hL r hr).1 hmem
    · cases hlast _ hmem
    · exact (hL r hr).2 hmem
    · cases hlast _ hmem
  refine ⟨?_, fun a ha => ?_, h.names⟩
  · rw [hclear.strays_union, h.strays]
  · rw [hclear.after_union, h.leaves a ha]

/-- The frame rule for a piece that does not stray on its way. -/
lemma besides (h : Balances N P [] x Q) (F : Finset ρ) (hF : ∀ r ∈ F, r ∉ P ∧ r ∉ N) :
    Balances N (P ∪ F) [] x fun a => Q a ∪ F :=
  h.frame F hF (by simp)

/-- A resource that is held just for the time of `x`, and that `x` may use. -/
lemma bracket (hx : Balances N (insert r P) L x fun a => insert r (Q a)) (hrN : r ∈ N)
    (hrP : r ∉ P) (hrQ : ∀ a, x.result = .ok a → r ∉ Q a) :
    Balances N P L (do
      Act.emit (.acquire r)
      let a ← x
      Act.emit (.release r)
      Pure.pure a) Q := by
  refine andThen (acquire hrP hrN) rfl (hx.bind fun a ha => ?_)
  refine (release (Finset.mem_insert_self r _)).bind fun _ _ => pure ?_
  exact Finset.erase_insert (hrQ a ha)

/-- The same where the resource may be missing. -/
lemma bracketIf {c : Prop} [Decidable c]
    (hx : Balances N (if c then insert r P else P) L x fun a => if c then insert r (Q a) else Q a)
    (hrN : r ∈ N) (hrP : r ∉ P) (hrQ : ∀ a, x.result = .ok a → r ∉ Q a) :
    Balances N P L (do
      Act.emitIf c (.acquire r)
      let a ← x
      Act.emitIf c (.release r)
      Pure.pure a) Q := by
  unfold Act.emitIf
  split_ifs at hx ⊢
  · exact bracket hx hrN hrP hrQ
  · refine andThen (pure (Q := fun _ => P) rfl) rfl (hx.bind fun a _ => ?_)
    exact (pure (Q := fun _ => Q a) rfl).bind fun _ _ => pure rfl

end Balances

/-! ### Other names -/

section Rename

variable [DecidableEq ρ']

lemma apply_map (f : ρ ↪ ρ') (op : Op ρ) :
    (op.map f).apply (held.map f) = (op.apply held).map f := by
  cases op with
  | acquire r => exact (Finset.map_insert f r held).symm
  | use r => rfl
  | release r => exact (Finset.map_erase f held r).symm
  | astray => rfl

lemma after_map (f : ρ ↪ ρ') :
    after (held.map f) (ops.map (Op.map f)) = (after held ops).map f := by
  induction ops generalizing held with
  | nil => rfl
  | cons op ops ih => rw [List.map_cons, after_cons, after_cons, apply_map, ih]

lemma strays_map (f : ρ ↪ ρ') :
    strays (held.map f) (ops.map (Op.map f)) = (strays held ops).map (Op.map f) := by
  induction ops generalizing held with
  | nil => rfl
  | cons op ops ih =>
    rw [List.map_cons, strays, strays, apply_map, ih, List.map_append]
    simp only [sound_map]
    split_ifs <;> rfl

lemma Balances.rename {N : Set ρ} {P : Finset ρ} {L : List (Op ρ)} {x : Act (Op ρ) κ α}
    {Q : α → Finset ρ} {κ' : Type*} (h : Balances N P L x Q) (f : ρ ↪ ρ') (fail : κ → κ') :
    Balances (f '' N) (P.map f) (L.map (Op.map f)) (Ledger.rename f fail x)
      fun a => (Q a).map f := by
  refine ⟨?_, fun a ha => ?_, fun r hr => ?_⟩
  · rw [Ledger.rename, strays_map, h.strays, List.map_append]
    congr 1
    cases x.result <;> rfl
  · rcases hx : x.result with k | b
    · simp [Ledger.rename, hx, Except.mapError] at ha
    · simp only [Ledger.rename, hx, Except.mapError, Except.ok.injEq] at ha
      rw [Ledger.rename, after_map, h.leaves b hx, ha]
  · obtain ⟨op, hop, heq⟩ := List.mem_map.mp hr
    cases op with
    | acquire s =>
      obtain rfl := Op.acquire.inj heq
      exact Set.mem_image_of_mem f (h.names s hop)
    | use s => cases heq
    | release s => cases heq
    | astray => cases heq

end Rename

/-! ### Where the process ends -/

/-- Where `P` is held, `x` leaves what `Q` says if it returns, and what `E` says where the process
ends. On its way it strays only as `S` allows, and at the end as `last` says. -/
structure Leaves (S : Op ρ → Prop) (last : κ → List (Op ρ)) (P : Finset ρ) (x : Act (Op ρ) κ α)
    (Q : α → Finset ρ → Prop) (E : κ → Finset ρ → Prop) : Prop where
  strays : ∃ L, (∀ op ∈ L, S op) ∧ strays P x.events = L ++ lastOf last x.result
  returned : ∀ a, x.result = .ok a → Q a (after P x.events)
  ended : ∀ k, x.result = .error k → E k (after P x.events)

namespace Leaves

variable {S : Op ρ → Prop} {last : κ → List (Op ρ)} {P : Finset ρ} {L : List (Op ρ)}
  {x : Act (Op ρ) κ α} {Q : α → Finset ρ → Prop} {E : κ → Finset ρ → Prop}
  {f : α → Act (Op ρ) κ β} {R : β → Finset ρ → Prop}

lemma pure {a : α} (h : Q a P) : Leaves S last P (Pure.pure a : Act (Op ρ) κ α) Q E := by
  refine ⟨⟨[], by simp, rfl⟩, fun b hb => ?_, (fun k hk => nomatch hk)⟩
  obtain rfl := Except.ok.inj hb
  exact h

/-- A piece that is balanced; what it strays on its way is allowed, and what it strays where it
fails is expected. -/
lemma of_balances {N : Set ρ} {Q' : α → Finset ρ} (h : Balances N P L x Q') (hL : ∀ op ∈ L, S op)
    (hlast : ∀ k, x.result = .error k → last k = [.astray])
    (hQ : ∀ a, x.result = .ok a → Q a (Q' a))
    (hE : ∀ k held, x.result = .error k → E k held) : Leaves S last P x Q E := by
  refine ⟨⟨L, hL, ?_⟩, fun a ha => h.leaves a ha ▸ hQ a ha, fun k hk => hE k _ hk⟩
  rw [h.strays]
  rcases hres : x.result with k | a
  · rw [lastOf, lastOf, hlast k hres]
  · rfl

lemma bind (hx : Leaves S last P x Q E)
    (hf : ∀ a held, x.result = .ok a → Q a held → Leaves S last held (f a) R E) :
    Leaves S last P (x >>= f) R E := by
  obtain ⟨L, hL, hstrays⟩ := hx.strays
  rcases hres : x.result with k | a
  · rw [Act.bind_of_error hres]
    rw [hres] at hstrays
    exact ⟨⟨L, hL, hstrays⟩, (fun b hb => nomatch hb),
      fun k' hk => hx.ended k' (hres.trans (congrArg _ (Except.error.inj hk)))⟩
  · rw [hres, lastOf, List.append_nil] at hstrays
    have hrest := hf a _ hres (hx.returned a hres)
    obtain ⟨L', hL', hstrays'⟩ := hrest.strays
    rw [Act.bind_of_ok hres]
    refine ⟨⟨L ++ L', fun op hop => (List.mem_append.mp hop).elim (hL op) (hL' op), ?_⟩, ?_, ?_⟩
    · rw [strays_append, hstrays, hstrays', List.append_assoc]
    · intro b hb
      rw [after_append]
      exact hrest.returned b hb
    · intro k hk
      rw [after_append]
      exact hrest.ended k hk

lemma consequence {Q' : α → Finset ρ → Prop} {E' : κ → Finset ρ → Prop}
    (h : Leaves S last P x Q E) (hQ : ∀ a held, x.result = .ok a → Q a held → Q' a held)
    (hE : ∀ k held, E k held → E' k held) : Leaves S last P x Q' E' :=
  ⟨h.strays, fun a ha => hQ a _ ha (h.returned a ha), fun k hk => hE k _ (h.ended k hk)⟩

/-- A piece that returns, before another. -/
lemma after {N : Set ρ} {R' : Finset ρ} {a : α} (hx : Balances N P L x fun _ => R')
    (hL : ∀ op ∈ L, S op) (ha : x.result = .ok a) (hf : Leaves S last R' (f a) R E) :
    Leaves S last P (x >>= f) R E := by
  have hfirst : Leaves S last P x (fun b held => b = a ∧ held = R') E := by
    refine of_balances hx hL (fun k hk => nomatch hk.symm.trans ha) (fun b hb => ?_)
      (fun k _ hk => nomatch hk.symm.trans ha)
    exact ⟨Except.ok.inj (hb.symm.trans ha), rfl⟩
  refine hfirst.bind ?_
  rintro b held - ⟨rfl, rfl⟩
  exact hf

/-- The process ends after a piece whose strays are the last. -/
lemma stop_after {N : Set ρ} {R' : Finset ρ} {k : κ} {a : α}
    (hx : Balances N P (last k) x fun _ => R') (ha : x.result = .ok a) (h : E k R') :
    Leaves S last P (x >>= fun _ => Act.stop k : Act (Op ρ) κ β) R E := by
  have hstrays := hx.strays
  rw [ha, lastOf, List.append_nil] at hstrays
  rw [Act.bind_of_ok ha]
  refine ⟨⟨[], by simp, ?_⟩, (fun b hb => nomatch hb), fun k' hk => ?_⟩
  · rw [Act.stop_events, List.append_nil, hstrays]
    rfl
  · obtain rfl := Except.error.inj hk
    rw [Act.stop_events, List.append_nil, hx.leaves a ha]
    exact h

section Emit

variable {f : PUnit → Act (Op ρ) κ β} {c : Prop} [Decidable c]

lemma use (hr : r ∈ P) (hf : Leaves S last P (f ⟨⟩) R E) :
    Leaves S last P (Act.emit (.use r) >>= f) R E :=
  after (Balances.use (N := ∅) hr) (by simp) rfl hf

lemma acquire (hr : r ∉ P) (hf : Leaves S last (insert r P) (f ⟨⟩) R E) :
    Leaves S last P (Act.emit (.acquire r) >>= f) R E :=
  after (Balances.acquire (N := {r}) hr rfl) (by simp) rfl hf

lemma useIf (hr : c → r ∈ P) (hf : Leaves S last P (f ⟨⟩) R E) :
    Leaves S last P (Act.emitIf c (.use r) >>= f) R E :=
  after (Balances.useIf (N := ∅) hr) (by simp) (Act.emitIf_result _ _) hf

lemma acquireIf (hr : c → r ∉ P) (hf : Leaves S last (if c then insert r P else P) (f ⟨⟩) R E) :
    Leaves S last P (Act.emitIf c (.acquire r) >>= f) R E :=
  after (Balances.acquireIf (N := {r}) hr fun _ => rfl) (by simp) (Act.emitIf_result _ _) hf

lemma releaseIf (hr : c → r ∈ P) (hf : Leaves S last (if c then P.erase r else P) (f ⟨⟩) R E) :
    Leaves S last P (Act.emitIf c (.release r) >>= f) R E :=
  after (Balances.releaseIf (N := ∅) hr) (by simp) (Act.emitIf_result _ _) hf

end Emit

/-- **Loop rule.** What every step of a loop keeps, the loop keeps. -/
theorem loop {ι : Type*} {σ : Type v} {body : ι → σ → Act (Op ρ) κ σ} {I : σ → Finset ρ → Prop}
    (hbody : ∀ i s held, I s held → Leaves S last held (body i s) I E) (is : List ι) {s : σ}
    (h : I s P) : Leaves S last P (Act.loop body is s) I E := by
  induction is generalizing s P with
  | nil => exact pure h
  | cons i is ih =>
    rw [Act.loop_cons]
    exact (hbody i s P h).bind fun s' held _ h' => ih h'

end Leaves

end ProxyAuth.Ledger
