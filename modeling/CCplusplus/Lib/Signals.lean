import Mathlib.Tactic.Common
/-!
# Signals — the signals of a process, its masks and its handlers

A signal that is sent to a process is pending until it is delivered, once however often it was sent.  It is delivered
where the mask in force does not block it: its handler then runs, over the program or over a handler that it interrupts,
under a mask of its own, and its return brings back the mask below.  What blocks a signal for good is that every mask
does (`Blocked`).
-/
namespace CLib

/-- A handler that runs: the signal, its next statement, and what is blocked while it is the innermost one. -/
structure Frame (Sig H : Type) where
  sig : Sig
  pc : H
  mask : Sig → Bool

structure Signals (Sig H : Type) where
  /-- the mask of the program itself, in force where no handler runs -/
  mask : Sig → Bool
  pending : Sig → Bool
  /-- the handlers that run, the innermost first -/
  frames : List (Frame Sig H)

namespace Signals

variable {Sig H : Type}

/-- The mask in force, where the program is not one that waits under another. -/
def inForce (p : Signals Sig H) : Sig → Bool :=
  match p.frames with
  | [] => p.mask
  | f :: _ => f.mask

/-- The innermost handler comes to another statement. -/
def goOn (p : Signals Sig H) (pc : H) : Signals Sig H :=
  match p.frames with
  | [] => p
  | f :: fs => { p with frames := { f with pc := pc } :: fs }

/-- The mask in force is changed. -/
def remask (p : Signals Sig H) (g : (Sig → Bool) → Sig → Bool) : Signals Sig H :=
  match p.frames with
  | [] => { p with mask := g p.mask }
  | f :: fs => { p with frames := { f with mask := g f.mask } :: fs }

/-- The innermost handler returns. -/
def leave (p : Signals Sig H) : Signals Sig H := { p with frames := p.frames.tail }

theorem inForce_nil {p : Signals Sig H} (h : p.frames = []) : p.inForce = p.mask := by
  unfold inForce
  rw [h]

theorem goOn_cons {p : Signals Sig H} {f : Frame Sig H} {fs : List (Frame Sig H)} (h : p.frames = f :: fs) (pc : H) :
    p.goOn pc = { p with frames := { f with pc := pc } :: fs } := by
  unfold goOn
  rw [h]

theorem remask_cons {p : Signals Sig H} {f : Frame Sig H} {fs : List (Frame Sig H)} (h : p.frames = f :: fs)
    (g : (Sig → Bool) → Sig → Bool) : p.remask g = { p with frames := { f with mask := g f.mask } :: fs } := by
  unfold remask
  rw [h]

theorem inForce_cons {p : Signals Sig H} {f : Frame Sig H} {fs : List (Frame Sig H)} (h : p.frames = f :: fs) :
    p.inForce = f.mask := by
  unfold inForce
  rw [h]

/-- The signal is blocked by the program's mask and by those of all its handlers. -/
structure Blocked (sig : Sig) (p : Signals Sig H) : Prop where
  mask : p.mask sig = true
  frames : ∀ f ∈ p.frames, f.mask sig = true

theorem Blocked.inForce {sig : Sig} {p : Signals Sig H} (h : Blocked sig p) : p.inForce sig = true := by
  unfold Signals.inForce
  cases hfs : p.frames with
  | nil => exact h.mask
  | cons f fs => exact h.frames f (by rw [hfs]; exact List.mem_cons_self)

theorem Blocked.goOn {sig : Sig} {p : Signals Sig H} (h : Blocked sig p) (pc : H) : Blocked sig (p.goOn pc) := by
  unfold Signals.goOn
  split
  · exact h
  · rename_i f fs hfs
    refine ⟨h.mask, fun f' hf => ?_⟩
    rcases List.mem_cons.1 hf with rfl | hf
    · exact h.frames f (by rw [hfs]; exact List.mem_cons_self)
    · exact h.frames f' (by rw [hfs]; exact List.mem_cons_of_mem f hf)

theorem Blocked.leave {sig : Sig} {p : Signals Sig H} (h : Blocked sig p) : Blocked sig p.leave :=
  ⟨h.mask, fun f hf => h.frames f (List.mem_of_mem_tail hf)⟩

/-! ## Signals that come -/

section Coming

variable [DecidableEq Sig]

/-- A signal is sent. -/
def arrive (p : Signals Sig H) (sig : Sig) : Signals Sig H :=
  { p with pending := fun x => decide (x = sig) || p.pending x }

/-- What is pending of a signal is discarded. -/
def discard (p : Signals Sig H) (sig : Sig) : Signals Sig H :=
  { p with pending := fun x => !decide (x = sig) && p.pending x }

/-- The handler of a signal starts at a statement, over a mask, with its own signal blocked too. -/
def deliver (p : Signals Sig H) (sig : Sig) (mask : Sig → Bool) (pc : H) : Signals Sig H :=
  { p with
    pending := fun x => !decide (x = sig) && p.pending x
    frames := ⟨sig, pc, fun x => decide (x = sig) || mask x⟩ :: p.frames }

@[simp] theorem pending_arrive (p : Signals Sig H) (sig x : Sig) :
    (p.arrive sig).pending x = true ↔ x = sig ∨ p.pending x = true := by simp [arrive]

@[simp] theorem pending_deliver (p : Signals Sig H) (sig : Sig) (mask : Sig → Bool) (pc : H) (x : Sig) :
    (p.deliver sig mask pc).pending x = true ↔ x ≠ sig ∧ p.pending x = true := by simp [deliver]

@[simp] theorem pending_discard (p : Signals Sig H) (sig x : Sig) :
    (p.discard sig).pending x = true ↔ x ≠ sig ∧ p.pending x = true := by simp [discard]

theorem Blocked.arrive {sig : Sig} {p : Signals Sig H} (h : Blocked sig p) (x : Sig) : Blocked sig (p.arrive x) :=
  ⟨h.mask, h.frames⟩

theorem Blocked.deliver {sig : Sig} {p : Signals Sig H} (h : Blocked sig p) {mask : Sig → Bool}
    (hm : mask sig = true) (x : Sig) (pc : H) : Blocked sig (p.deliver x mask pc) := by
  refine ⟨h.mask, fun f hf => ?_⟩
  rcases List.mem_cons.1 hf with rfl | hf
  · simp [hm]
  · exact h.frames f hf

/-- What a delivery does: the signal was pending and not blocked, and it was caught or not. -/
theorem delivered {S : Type} {pending forced caught : Bool} {runs dies s' : S}
    (h : (if pending && !forced then if caught then some runs else some dies else none) = some s') :
    pending = true ∧ forced = false ∧ ((caught = true ∧ s' = runs) ∨ (caught = false ∧ s' = dies)) := by
  split at h
  · rename_i hd
    obtain ⟨hp, hf⟩ := Bool.and_eq_true_iff.1 hd
    refine ⟨hp, Bool.not_eq_true' _ ▸ hf, ?_⟩
    cases caught with
    | true => exact .inl ⟨rfl, (Option.some.inj h).symm⟩
    | false => exact .inr ⟨rfl, (Option.some.inj h).symm⟩
  · cases h

end Coming

end Signals

end CLib
