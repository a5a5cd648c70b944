import ProxyAuth.PeerSafety

/-!
How the process of the server ends.

`lock` locks the screen before it ends the process. The process also ends when the session says
that it is locked, and it crashes where there is no `data_obj`, where there is no proxy for it, or
where a list of devices is read past what was written; the screen then stays as it is.
-/

namespace ProxyAuth.Ends

open ProxyAuth.Control ProxyAuth.CString ProxyAuth.BtMisc ProxyAuth.Login ProxyAuth.Deauth
open ProxyAuth.PeerSafety

/-! ### Reasons -/

/-- What `connect_client` asks about; after a failed `accept` it is what `rem_addr` held before. -/
def asked (S : Setup) (r : Round) (v : Vars) : Str := (answered S r.accept).getD v.remAddr

/-- A piece that ends the process has locked the screen, or there is a reason not to. -/
def LocksOr {α : Type} (P : End → Prop) (x : Proc α) : Prop :=
  ∀ k, x.result = .error k → .locked ∈ x.events ∨ P k

variable {α β : Type} {P : End → Prop}

lemma LocksOr.bind {x : Proc α} {f : α → Proc β} (hx : LocksOr P x)
    (hf : ∀ a, x.result = .ok a → LocksOr P (f a)) : LocksOr P (x >>= f) := by
  intro k hk
  rcases hres : x.result with e | a
  · rw [Act.bind_of_error hres] at hk ⊢
    obtain rfl : e = k := Except.error.inj hk
    exact hx e hres
  · rw [Act.bind_of_ok hres] at hk ⊢
    exact (hf a hres k hk).imp_left fun h => List.mem_append_right _ h

variable {S : Setup} {clock : ℕ → ℤ} {r : Round} {v : Vars} {rounds : List Round}

end ProxyAuth.Ends
