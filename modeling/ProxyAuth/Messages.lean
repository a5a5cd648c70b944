import ProxyAuth.BluetoothInteraction

/-!
What `receiveCommand` returns.

The whole buffer is turned to text each time, so that a message comes with what is left in the
buffer from the messages before it.
-/

namespace ProxyAuth.Messages

open ProxyAuth.Utf8 hiding step
open ProxyAuth.Runs ProxyAuth.BluetoothInteraction

/-- The text of what one read delivers. -/
def own : Read → Text
  | .data m => decode m.bytes
  | .endOfStream => []

/-- What the calls of `receiveCommand` return, one for each read. -/
def received : Buffer → List Read → List Text
  | _, [] => []
  | b, r :: rs => (b.read r).toText :: received (b.read r) rs

/-- Data came, and it fills the buffer, or stops in the middle of a character to which the rest
of the buffer belongs. -/
def Fits (b : Buffer) : Read → Prop
  | .data m => Joins m.bytes (b.bytes.drop m.bytes.length)
  | .endOfStream => False

/-! ### One call -/

lemma toText_read_eq_iff {b : Buffer} {r : Read} : (b.read r).toText = own r ↔ Fits b r := by
  rcases r with m | _
  · exact decode_append_eq_iff
  · exact iff_of_false b.toText_ne id

/-- A message of less than 1021 bytes never stands alone. -/
theorem le_length_of_fits {b : Buffer} {m : Message} (h : Fits b (.data m)) :
    1021 ≤ m.bytes.length := by
  have hlen := length_le_of_joins h
  rw [List.length_drop, b.size] at hlen
  omega

/-! ### All calls -/

/-- **When messages stand alone.** Every call returns the text of its own read exactly when every
read fits what the reads before it left in the buffer. -/
theorem received_eq_own_iff (b : Buffer) (reads : List Read) :
    received b reads = reads.map own ↔
      ∀ front r rest, reads = front ++ r :: rest → Fits (front.foldl Buffer.read b) r := by
  induction reads generalizing b with
  | nil => simp [received]
  | cons r rs ih =>
    rw [received, List.map_cons, List.cons.injEq, toText_read_eq_iff, ih]
    constructor
    · rintro ⟨hr, hrs⟩ front r' rest hsplit
      rcases front with _ | ⟨f, front⟩
      · cases hsplit
        exact hr
      · cases hsplit
        exact hrs front r' rest rfl
    · intro h
      refine ⟨h [] r rs rfl, fun front r' rest hsplit => h (r :: front) r' rest ?_⟩
      rw [hsplit, List.cons_append]

def hello : Message := ⟨[104, 101, 108, 108, 111], by decide, by decide⟩

/-- `hello` comes with what was in the buffer behind it, and comes again at the end. -/
theorem received_hello :
    received .zero [.data hello, .endOfStream] ≠ [.data hello, .endOfStream].map own := by
  decide +kernel

/-! ### In a run of the service -/

/-- The call of `receiveCommand` that ends with the step, if one does. -/
def call (s : Service) (a : Action) (s' : Service) : List (Read × Text) :=
  match a with
  | .work a =>
    match s.place, s'.place with
    | .receiveRead, .stopTest buf => [(a.read, buf)]
    | _, _ => []
  | .drop | .destroy _ => []

/-- The calls in a run, as far as it goes. -/
def calls : Service → List Action → List (Read × Text)
  | _, [] => []
  | s, a :: as =>
    match step s a with
    | none => []
    | some s' => call s a s' ++ calls s' as

lemma next_ne_stopTest (k : Caller) (buf : Text) : k.next ≠ .stopTest buf := by
  cases k <;> simp [Caller.next]

/-- `s'` is not at the stop test, and has the buffer and the flag of `s`. -/
def Apart (s s' : Service) : Prop :=
  s'.buffer = s.buffer ∧ s'.stopping = s.stopping ∧ ∀ buf, s'.place ≠ .stopTest buf

lemma apart_goto (s : Service) {p : Place} (h : ∀ buf, p ≠ .stopTest buf) : Apart s (s.goto p) :=
  ⟨rfl, rfl, h⟩

lemma apart_deref (s : Service) {p : Place} (h : ∀ buf, p ≠ .stopTest buf) :
    Apart s (s.deref p) := by
  unfold Service.deref
  split_ifs
  · exact apart_goto s h
  · exact apart_goto s (by simp)

lemma apart_close (s : Service) (a : Answer) (k : Caller) {p : Place}
    (h : ∀ buf, p ≠ .stopTest buf) : Apart s (s.close a k p) := by
  unfold Service.close
  split_ifs
  · exact apart_goto s h
  · exact apart_goto s (by simp)
  · exact apart_goto s (by simp)

lemma work_cases {s s' : Service} {a : Answer} (h : s.work a = some s') :
    s.place = .receiveRead ∧ s' = s.receive a.read ∨
      (∃ buf, s.place = .stopTest buf ∧
        s' = { s with stopping := s.stopping || buf == [], place := .sendNull }) ∨
      Apart s s' := by
  unfold Service.work at h
  cases hplace : s.place with
  | receiveRead =>
    simp only [hplace] at h
    split at h
    · rename_i m _ hread
      rw [hread]
      exact .inl ⟨rfl, (Option.some.inj h).symm⟩
    · cases h
    · split_ifs at h
      · exact .inl ⟨rfl, (Option.some.inj h).symm⟩
      · cases h
        exact .inr (.inr (apart_goto s (by simp)))
    · cases h
      exact .inr (.inr (apart_goto s (by simp)))
  | stopTest buf =>
    simp only [hplace] at h
    exact .inr (.inl ⟨buf, rfl, (Option.some.inj h).symm⟩)
  | disconnectNull k =>
    simp only [hplace] at h
    cases h
    refine .inr (.inr (apart_goto s ?_))
    split_ifs
    · simp
    · exact next_ne_stopTest k
  | clear k =>
    simp only [hplace] at h
    cases h
    exact .inr (.inr ⟨rfl, rfl, next_ne_stopTest k⟩)
  | closeSocket k =>
    simp only [hplace] at h
    cases h
    exact .inr (.inr (apart_close s a k (by simp)))
  | create | connect =>
    simp only [hplace] at h
    refine .inr (.inr ?_)
    split_ifs at h <;> cases h <;> exact ⟨rfl, rfl, by simp [Service.goto]⟩
  | finished | crashed =>
    simp only [hplace] at h
    cases h
  | connectNull | serverNull | receiveNull | sendNull =>
    simp only [hplace] at h
    cases h
    exact .inr (.inr (apart_goto s (by split_ifs <;> simp)))
  | sendWrite =>
    simp only [hplace] at h
    cases h
    exact .inr (.inr (apart_goto s (by simp)))
  | connectLive | serverLive | receiveLive | sendLive =>
    simp only [hplace] at h
    cases h
    exact .inr (.inr (apart_deref s (by split_ifs <;> simp)))
  | receiveStream | sendStream =>
    simp only [hplace] at h
    cases h
    exact .inr (.inr (apart_deref s (by simp)))
  | closeOutput k | closeInput k =>
    simp only [hplace] at h
    cases h
    exact .inr (.inr (apart_close s a k (by simp)))

lemma call_eq_nil {s s' : Service} {a : Answer}
    (h : s.place ≠ .receiveRead ∨ ∀ buf, s'.place ≠ .stopTest buf) : call s (.work a) s' = [] := by
  simp only [call]
  split
  · rename_i hread hstop
    exact h.elim (absurd hread) fun h => absurd hstop (h _)
  · rfl

/-- A step either ends a call, which reads into the buffer, or leaves the buffer as it is. -/
lemma call_cases {s s' : Service} {a : Action} (h : step s a = some s') :
    (∃ r, call s a s' = [(r, (s.buffer.read r).toText)] ∧ s'.buffer = s.buffer.read r) ∨
      call s a s' = [] ∧ s'.buffer = s.buffer := by
  cases a with
  | work a =>
    rcases work_cases h with ⟨hplace, rfl⟩ | ⟨buf, hplace, rfl⟩ | ⟨hbuffer, -, hplace⟩
    · exact .inl ⟨a.read, by simp [call, hplace, Service.receive], rfl⟩
    · exact .inr ⟨call_eq_nil (.inl (by simp [hplace])), rfl⟩
    · exact .inr ⟨call_eq_nil (.inr hplace), hbuffer⟩
  | drop =>
    simp only [step] at h
    split_ifs at h
    cases h
    exact .inr ⟨rfl, rfl⟩
  | destroy ok =>
    cases h
    refine .inr ⟨rfl, ?_⟩
    unfold Service.onDestroy
    split_ifs <;> rfl

/-- The calls in a run return what comes from the reads in it. -/
theorem calls_eq_received (s : Service) (as : List Action) :
    (calls s as).map Prod.snd = received s.buffer ((calls s as).map Prod.fst) := by
  induction as generalizing s with
  | nil => rfl
  | cons a as ih =>
    rw [calls]
    rcases hstep : step s a with _ | s'
    · rfl
    · simp only
      rcases call_cases hstep with ⟨r, hcall, hbuffer⟩ | ⟨hcall, hbuffer⟩
      · rw [hcall, List.singleton_append, List.map_cons, List.map_cons, received, ih, hbuffer]
      · rw [hcall, List.nil_append, ih, hbuffer]

/-- **The stop test never fires.** -/
theorem stopping_eq {Ok : Service → Action → Prop} {n : ℕ} {s s' : Service} (hstart : s.Starts)
    (hrun : Run step cost Ok n s s') : s'.stopping = s.stopping := by
  suffices h : s'.stopping = s.stopping ∧ ∀ buf, s'.place = .stopTest buf → buf ≠ [] from h.1
  refine hrun.invariant (I := fun t => t.stopping = s.stopping ∧
    ∀ buf, t.place = .stopTest buf → buf ≠ []) ?_ ⟨rfl, by simp [hstart.1]⟩
  rintro t a t' ⟨hstopping, hbuf⟩ - hstep
  cases a with
  | work a =>
    rcases work_cases hstep with ⟨-, rfl⟩ | ⟨buf, hplace, rfl⟩ | ⟨-, hstopping', hplace⟩
    · refine ⟨hstopping, fun buf h => ?_⟩
      cases h
      exact Buffer.toText_ne _
    · have hne : (buf == []) = false := by simpa using hbuf buf hplace
      exact ⟨by simp [hstopping, hne], by simp⟩
    · exact ⟨hstopping'.trans hstopping, fun buf h => absurd h (hplace buf)⟩
  | drop =>
    simp only [step] at hstep
    split_ifs at hstep
    cases hstep
    exact ⟨hstopping, hbuf⟩
  | destroy ok =>
    cases hstep
    unfold Service.onDestroy
    split_ifs <;> exact ⟨hstopping, hbuf⟩

end ProxyAuth.Messages
