import Mathlib.Data.List.Basic
import Mathlib.Tactic.SplitIfs

/-!
Sequencing: calls that may fail, and processes that leave a trace.

A step of a process emits events and then either comes to a value, and the process goes on,
or comes to an end. What was emitted before the end stays in the trace.
-/

namespace ProxyAuth.Control

universe u v

/-! ### Calls that may fail -/

section Except

variable {ε : Type u} {α β : Type v}

@[simp] lemma pure_eq_ok (a : α) : (pure a : Except ε α) = .ok a := rfl
@[simp] lemma ok_bind (a : α) (f : α → Except ε β) : (Except.ok a >>= f) = f a := rfl
@[simp] lemma error_bind (e : ε) (f : α → Except ε β) : (Except.error e >>= f) = .error e := rfl

lemma bind_eq_ok {x : Except ε α} {f : α → Except ε β} {b : β} :
    (x >>= f) = .ok b ↔ ∃ a, x = .ok a ∧ f a = .ok b := by
  cases x <;> simp

end Except

/-! ### Processes -/

/-- A piece of a run: the events it emits, and what it comes to. -/
structure Act (ε κ α : Type*) where
  events : List ε
  result : Except κ α

namespace Act

variable {ε κ φ : Type*} {α β : Type v}

def pure (a : α) : Act ε κ α := ⟨[], .ok a⟩

def bind (x : Act ε κ α) (f : α → Act ε κ β) : Act ε κ β :=
  match x.result with
  | .ok a => ⟨x.events ++ (f a).events, (f a).result⟩
  | .error k => ⟨x.events, .error k⟩

instance : Monad (Act ε κ) where
  pure := pure
  bind := bind

def emit (e : ε) : Act ε κ PUnit := ⟨[e], .ok ⟨⟩⟩

/-- The event is emitted where the condition holds. -/
def emitIf (c : Prop) [Decidable c] (e : ε) : Act ε κ PUnit := if c then emit e else pure ⟨⟩

/-- The process ends. -/
def stop (k : κ) : Act ε κ α := ⟨[], .error k⟩

/-- A silent call whose failure ends the process. -/
def call (fail : φ → κ) (x : Except φ α) : Act ε κ α :=
  match x with
  | .ok a => pure a
  | .error e => stop (fail e)

lemma bind_eq (x : Act ε κ α) (f : α → Act ε κ β) : (x >>= f) = bind x f := rfl

@[simp] lemma pure_bind (a : α) (f : α → Act ε κ β) : ((Pure.pure a : Act ε κ α) >>= f) = f a := by
  simp [bind_eq, bind, Pure.pure, pure]

@[simp] lemma pure_events (a : α) : (Pure.pure a : Act ε κ α).events = [] := rfl
@[simp] lemma pure_result (a : α) : (Pure.pure a : Act ε κ α).result = .ok a := rfl
@[simp] lemma emit_events (e : ε) : (emit e : Act ε κ PUnit).events = [e] := rfl
@[simp] lemma emit_result (e : ε) : (emit e : Act ε κ PUnit).result = .ok ⟨⟩ := rfl
@[simp] lemma emitIf_result (c : Prop) [Decidable c] (e : ε) :
    (emitIf c e : Act ε κ PUnit).result = .ok ⟨⟩ := by
  unfold emitIf; split_ifs <;> rfl

lemma mem_emitIf_events {c : Prop} [Decidable c] {e x : ε} :
    x ∈ (emitIf c e : Act ε κ PUnit).events ↔ c ∧ x = e := by
  unfold emitIf; split_ifs with h <;> simp [h, emit, pure]

@[simp] lemma stop_events (k : κ) : (stop k : Act ε κ α).events = [] := rfl
@[simp] lemma stop_result (k : κ) : (stop k : Act ε κ α).result = .error k := rfl
@[simp] lemma call_ok (fail : φ → κ) (a : α) :
    (call fail (.ok a) : Act ε κ α) = Pure.pure a := rfl
@[simp] lemma call_error (fail : φ → κ) (e : φ) :
    (call fail (.error e) : Act ε κ α) = stop (fail e) := rfl

@[simp] lemma call_id_result (x : Except κ α) : (call id x : Act ε κ α).result = x := by
  cases x <;> rfl

@[simp] lemma call_events (fail : φ → κ) (x : Except φ α) :
    (call fail x : Act ε κ α).events = [] := by
  cases x <;> rfl

/-- After a piece that comes to a value, the trace goes on. -/
lemma bind_of_ok {x : Act ε κ α} {a : α} (h : x.result = .ok a) (f : α → Act ε κ β) :
    (x >>= f) = ⟨x.events ++ (f a).events, (f a).result⟩ := by
  simp [bind_eq, bind, h]

/-- After a piece that ends the process, nothing follows. -/
lemma bind_of_error {x : Act ε κ α} {k : κ} (h : x.result = .error k) (f : α → Act ε κ β) :
    (x >>= f) = ⟨x.events, .error k⟩ := by
  simp [bind_eq, bind, h]

@[simp] lemma stop_bind (k : κ) (f : α → Act ε κ β) :
    ((stop k : Act ε κ α) >>= f) = stop k := rfl

lemma bind_assoc {γ : Type v} (x : Act ε κ α) (f : α → Act ε κ β) (g : β → Act ε κ γ) :
    (x >>= f) >>= g = x >>= fun a => f a >>= g := by
  rcases hx : x.result with k | a
  · rw [bind_of_error hx, bind_of_error hx, bind_of_error rfl]
  · rw [bind_of_ok hx, bind_of_ok hx]
    rcases hf : (f a).result with k | b
    · rw [bind_of_error rfl, bind_of_error hf]
    · rw [bind_of_ok rfl, bind_of_ok hf, List.append_assoc]

@[simp] lemma bind_pure (x : Act ε κ α) : (x >>= Pure.pure) = x := by
  rcases hx : x.result with k | a
  · rw [bind_of_error hx, ← hx]
  · rw [bind_of_ok hx, pure_events, List.append_nil, pure_result, ← hx]

lemma bind_result_ok {x : Act ε κ α} {f : α → Act ε κ β} {b : β} :
    (x >>= f).result = .ok b ↔ ∃ a, x.result = .ok a ∧ (f a).result = .ok b := by
  rcases h : x.result with k | a
  · simp [bind_of_error h]
  · simp [bind_of_ok h]

/-- What a sequence comes to, whatever is emitted. -/
lemma bind_result (x : Act ε κ α) (f : α → Act ε κ β) :
    (x >>= f).result = x.result >>= fun a => (f a).result := by
  rcases h : x.result with k | a
  · rw [bind_of_error h]
    rfl
  · rw [bind_of_ok h]
    rfl

/-- An event of a sequence is one of the first piece, or of the second after the value the
first comes to. -/
lemma mem_bind_events {x : Act ε κ α} {f : α → Act ε κ β} {e : ε} :
    e ∈ (x >>= f).events ↔ e ∈ x.events ∨ ∃ a, x.result = .ok a ∧ e ∈ (f a).events := by
  rcases h : x.result with k | a
  · simp [bind_of_error h]
  · simp [bind_of_ok h]

/-- What holds of every event of both pieces holds of every event of the sequence. -/
lemma forall_bind_events {x : Act ε κ α} {f : α → Act ε κ β} {P : ε → Prop}
    (hx : ∀ e ∈ x.events, P e) (hf : ∀ a, x.result = .ok a → ∀ e ∈ (f a).events, P e) :
    ∀ e ∈ (x >>= f).events, P e := by
  intro e he
  rcases mem_bind_events.mp he with he | ⟨a, ha, he⟩
  · exact hx e he
  · exact hf a ha e he

/-! ### A loop fed by a list of inputs -/

section Loop

variable {σ : Type v} {ι : Type*} (body : ι → σ → Act ε κ σ)

/-- The loop body run on each input in turn, until it ends the process. -/
def loop : List ι → σ → Act ε κ σ
  | [], s => Pure.pure s
  | i :: is, s => body i s >>= loop is

@[simp] lemma loop_nil (s : σ) : loop body [] s = Pure.pure s := rfl
lemma loop_cons (i : ι) (is : List ι) (s : σ) :
    loop body (i :: is) s = body i s >>= loop body is := rfl

lemma loop_append (is is' : List ι) (s : σ) :
    loop body (is ++ is') s = loop body is s >>= loop body is' := by
  induction is generalizing s with
  | nil => simp
  | cons i is ih =>
    rw [List.cons_append, loop_cons, loop_cons, bind_assoc]
    congr 1
    funext s'
    exact ih s'

variable {body}

/-- An event of a run is one of a single step, in the state the steps before come to. -/
lemma mem_loop_events {e : ε} {is : List ι} {s : σ} :
    e ∈ (loop body is s).events ↔ ∃ front i rest s', is = front ++ i :: rest ∧
      (loop body front s).result = .ok s' ∧ e ∈ (body i s').events := by
  induction is generalizing s with
  | nil => simp
  | cons i is ih =>
    rw [loop_cons, mem_bind_events]
    constructor
    · rintro (he | ⟨s₁, h₁, he⟩)
      · exact ⟨[], i, is, s, rfl, rfl, he⟩
      · obtain ⟨front, j, rest, s', rfl, hs', he⟩ := ih.mp he
        exact ⟨i :: front, j, rest, s', rfl, bind_result_ok.mpr ⟨s₁, h₁, hs'⟩, he⟩
    · rintro ⟨front, j, rest, s', hsplit, hs', he⟩
      rcases front with _ | ⟨i', front⟩
      · obtain ⟨rfl, rfl⟩ := List.cons.inj hsplit
        obtain rfl : s = s' := Except.ok.inj hs'
        exact .inl he
      · obtain ⟨rfl, rfl⟩ := List.cons.inj hsplit
        obtain ⟨s₁, h₁, hs'⟩ := bind_result_ok.mp hs'
        exact .inr ⟨s₁, h₁, ih.mpr ⟨front, j, rest, s', rfl, hs', he⟩⟩

/-- **Invariant rule.** A property of the state that every step keeps, and under which every
step emits only good events, makes every event of a run good. -/
theorem loop_invariant {I : σ → Prop} {P : ε → Prop}
    (hev : ∀ i s, I s → ∀ e ∈ (body i s).events, P e)
    (hst : ∀ i s s', I s → (body i s).result = .ok s' → I s') (is : List ι) {s : σ} (hs : I s) :
    (∀ e ∈ (loop body is s).events, P e) ∧ ∀ s', (loop body is s).result = .ok s' → I s' := by
  induction is generalizing s with
  | nil => exact ⟨by simp, fun s' h => by simp at h; exact h ▸ hs⟩
  | cons i is ih =>
    rw [loop_cons]
    refine ⟨forall_bind_events (hev i s hs) fun s₁ h₁ => (ih (hst i s s₁ hs h₁)).1, ?_⟩
    intro s' h
    obtain ⟨s₁, h₁, h₂⟩ := bind_result_ok.mp h
    exact (ih (hst i s s₁ hs h₁)).2 s' h₂

/-- What a loop comes to, whatever is emitted. -/
lemma loop_result {f : σ → ι → Except κ σ} (hbody : ∀ i s, (body i s).result = f s i)
    (is : List ι) (s : σ) : (loop body is s).result = is.foldlM f s := by
  induction is generalizing s with
  | nil => rfl
  | cons i is ih =>
    rw [loop_cons, bind_result, hbody, List.foldlM_cons]
    congr 1
    funext s'
    exact ih s'

/-- **Account rule.** What every step keeps of the state and of all that has been emitted so far,
a run keeps. -/
theorem loop_account {I : List ε → σ → Prop}
    (hstep : ∀ i es s s', I es s → (body i s).result = .ok s' → I (es ++ (body i s).events) s')
    (is : List ι) {es : List ε} {s s' : σ} (hs : I es s) (h : (loop body is s).result = .ok s') :
    I (es ++ (loop body is s).events) s' := by
  induction is generalizing es s with
  | nil =>
    obtain rfl := Except.ok.inj h
    rwa [loop_nil, pure_events, List.append_nil]
  | cons i is ih =>
    obtain ⟨s₁, h₁, hrest⟩ := bind_result_ok.mp h
    rw [loop_cons, bind_of_ok h₁, ← List.append_assoc]
    exact ih (hstep i es s s₁ hs h₁) hrest

end Loop

end Act

end ProxyAuth.Control
