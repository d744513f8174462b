/-
  ShapeEstimator.Stop
  ────────────────────────────────
  **HOW A COMPUTATION STOPS SHORT.**

  A computation without a result has failed or was aborted.  A failure belongs to
  whoever asked for the result: it can be caught, reported beside other results, or
  passed on in other terms.  An abort belongs to no one.  Whatever waits for the result
  is aborted with it, up to the program itself:

      caught (failure e)  =  the outcome e
      caught (abort a)    =  abort a
-/

namespace ShapeEstimator

/-! ## §1. Aborts and failures. -/

/-- What ends a computation together with everything that waits for it. -/
inductive Abort where
  /-- The approximations of a square root do not come to rest. -/
  | unsettledRoot
  /-- A function reads an argument that it was not given. -/
  | missingArgument
  deriving DecidableEq, Repr

/-- Why a computation has no result. -/
inductive Stop (ε : Type) where
  /-- It failed, which is an answer to whoever asked. -/
  | failure (e : ε)
  /-- It was aborted, and there is no answer. -/
  | abort (a : Abort)
  deriving DecidableEq, Repr

namespace Stop

variable {ε δ α : Type}

/-- A stop with its failure in other terms. -/
def map (g : ε → δ) : Stop ε → Stop δ
  | failure e => failure (g e)
  | abort a => abort a

@[simp] theorem map_failure (g : ε → δ) (e : ε) : (failure e).map g = failure (g e) := rfl

@[simp] theorem map_abort (g : ε → δ) (a : Abort) : (abort a : Stop ε).map g = abort a := rfl

end Stop

/-! ## §2. Computations. -/

section

variable {ε δ α β : Type}

/-- A computation that may fail, among those that may also be aborted. -/
def orFail (x : Except ε α) : Except (Stop ε) α := x.mapError .failure

/-- A computation that may be aborted, among those that may also fail. -/
def orAbort (x : Except Abort α) : Except (Stop ε) α := x.mapError .abort

/-- A computation whose failure is caught.  An abort is passed on. -/
def caught : Except (Stop ε) α → Except Abort (Except ε α)
  | .ok x => .ok (.ok x)
  | .error (.failure e) => .ok (.error e)
  | .error (.abort a) => .error a

@[simp] theorem orFail_ok (x : α) : orFail (.ok x : Except ε α) = .ok x := rfl

@[simp] theorem orFail_error (e : ε) :
    orFail (.error e : Except ε α) = .error (.failure e) := rfl

@[simp] theorem orAbort_ok (x : α) : (orAbort (.ok x) : Except (Stop ε) α) = .ok x := rfl

@[simp] theorem orAbort_error (a : Abort) :
    (orAbort (.error a) : Except (Stop ε) α) = .error (.abort a) := rfl

@[simp] theorem caught_ok (x : α) : caught (.ok x : Except (Stop ε) α) = .ok (.ok x) := rfl

@[simp] theorem caught_failure (e : ε) :
    caught (.error (.failure e) : Except (Stop ε) α) = .ok (.error e) := rfl

@[simp] theorem caught_abort (a : Abort) :
    caught (.error (.abort a) : Except (Stop ε) α) = .error a := rfl

/-- A computation whose failure was caught has the result that it had before. -/
theorem ok_iff_of_caught {x : Except (Stop ε) α} {y : Except ε α} {r : α}
    (h : caught x = .ok y) : y = .ok r ↔ x = .ok r := by
  rcases x with (e | a) | x <;> simp_all [eq_comm]

/-- What was caught is the failure. -/
theorem error_iff_of_caught {x : Except (Stop ε) α} {y : Except ε α} {e : ε}
    (h : caught x = .ok y) : y = .error e ↔ x = .error (.failure e) := by
  rcases x with (e | a) | x <;> simp_all [eq_comm]

/-- A computation is aborted. -/
def Aborts (x : Except (Stop ε) α) : Prop := ∃ a, x = .error (.abort a)

@[simp] theorem not_aborts_ok (x : α) : ¬ Aborts (.ok x : Except (Stop ε) α) := nofun

@[simp] theorem not_aborts_failure (e : ε) :
    ¬ Aborts (.error (.failure e) : Except (Stop ε) α) := nofun

@[simp] theorem aborts_abort (a : Abort) : Aborts (.error (.abort a) : Except (Stop ε) α) :=
  ⟨a, rfl⟩

/-- What is not aborted can be caught. -/
theorem exists_caught_iff {x : Except (Stop ε) α} : (∃ y, caught x = .ok y) ↔ ¬ Aborts x := by
  rcases x with (e | a) | x <;> simp

instance (x : Except (Stop ε) α) : Decidable (Aborts x) :=
  match x with
  | .ok x => isFalse (not_aborts_ok x)
  | .error (.failure e) => isFalse (not_aborts_failure e)
  | .error (.abort a) => isTrue (aborts_abort a)

end

/-! ## §3. One computation after the other. -/

section

variable {ε α β γ : Type} {run : α → Except ε β} {put : γ → α → β → γ} {c after : γ}
  {x : α} {xs : List α}

/-- A fold over computations goes on from `c` once the first of them has a result. -/
theorem foldlM_map_cons_eq_ok_iff :
    (x :: xs).foldlM (fun c x => (run x).map (put c x)) c = .ok after ↔
      ∃ y, run x = .ok y
        ∧ xs.foldlM (fun c x => (run x).map (put c x)) (put c x y) = .ok after := by
  rw [List.foldlM_cons]
  cases run x with
  | error e => exact ⟨nofun, fun ⟨_, h, _⟩ => nomatch h⟩
  | ok y => exact ⟨fun h => ⟨y, rfl, h⟩, fun ⟨_, hy, h⟩ => Except.ok.inj hy ▸ h⟩

/-- A fold over computations goes through exactly when each of them has a result. -/
theorem exists_foldlM_map_iff :
    (∃ after, xs.foldlM (fun c x => (run x).map (put c x)) c = .ok after) ↔
      ∀ x ∈ xs, ∃ y, run x = .ok y := by
  induction xs generalizing c with
  | nil => exact iff_of_true ⟨c, rfl⟩ fun x hx => absurd hx List.not_mem_nil
  | cons x xs ih =>
    rw [List.forall_mem_cons]
    constructor
    · rintro ⟨after, h⟩
      obtain ⟨y, hy, h⟩ := foldlM_map_cons_eq_ok_iff.1 h
      exact ⟨⟨y, hy⟩, ih.1 ⟨after, h⟩⟩
    · rintro ⟨⟨y, hy⟩, hxs⟩
      obtain ⟨after, h⟩ := ih.2 hxs
      exact ⟨after, foldlM_map_cons_eq_ok_iff.2 ⟨y, hy, h⟩⟩

end

end ShapeEstimator
