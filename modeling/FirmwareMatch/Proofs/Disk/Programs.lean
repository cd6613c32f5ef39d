import FirmwareMatch.Disk.Access

/-
  Programs on a file system that is a state, part by part.

  A program that may end in a fault runs its parts one after another on the state, and the first
  fault ends it. So a run is taken apart at a bind: either the first part succeeded and the second
  ran on the state that it left, or the first part failed and that was all.

  Proved:
  * `run_bind_of_ok`, `run_bind_of_error`, `run_bind_cases`: a bind, forwards and backwards.
  * `run_attempt`, `run_attempt_cases`: an operation whose reason for failing becomes a fault.
  * `run_appendPortion`: a portion of a file.
  * `run_mapM_of_forall`: programs that succeed and change nothing.
-/

namespace FirmwareMatch.Access

variable {σ α β : Type} {s s' : σ}

/-- What follows a part that succeeds runs on the state that the part leaves. -/
theorem run_bind_of_ok {x : Access (StateM σ) α} {a : α} (h : x.run.run s = (.ok a, s'))
    (f : α → Access (StateM σ) β) : (x >>= f).run.run s = (f a).run.run s' := by
  change StateT.run (x.run >>= ExceptT.bindCont f) s = _
  rw [StateT.run_bind, h]
  rfl

/-- Nothing follows a part that fails. -/
theorem run_bind_of_error {x : Access (StateM σ) α} {e : Fault}
    (h : x.run.run s = (.error e, s')) (f : α → Access (StateM σ) β) :
    (x >>= f).run.run s = (.error e, s') := by
  change StateT.run (x.run >>= ExceptT.bindCont f) s = _
  rw [StateT.run_bind, h]
  rfl

/-- A run of two parts is a run of the first one, and of the second one if the first succeeded. -/
theorem run_bind_cases {x : Access (StateM σ) α} {f : α → Access (StateM σ) β}
    {r : Except Fault β} (h : (x >>= f).run.run s = (r, s')) :
    (∃ a t, x.run.run s = (.ok a, t) ∧ (f a).run.run t = (r, s')) ∨
      ∃ e, x.run.run s = (.error e, s') ∧ r = .error e := by
  rcases hx : x.run.run s with ⟨first, t⟩
  cases first with
  | ok a => exact .inl ⟨a, t, rfl, (run_bind_of_ok hx f).symm.trans h⟩
  | error e =>
    obtain ⟨rfl, rfl⟩ := Prod.mk.inj ((run_bind_of_error hx f).symm.trans h)
    exact .inr ⟨e, rfl, rfl⟩

/-- An operation whose reason for failing becomes a fault. -/
theorem run_attempt (fault : String → Fault) (op : StateM σ (Except String α)) (s : σ) :
    (attempt fault op : Access (StateM σ) α).run.run s =
      ((StateT.run op s).1.mapError fault, (StateT.run op s).2) := rfl

/-- What comes of an operation is its result, or a fault with the reason that it gave. -/
theorem run_attempt_cases {fault : String → Fault} {op : StateM σ (Except String α)}
    {r : Except Fault α} (h : (attempt fault op : Access (StateM σ) α).run.run s = (r, s')) :
    (∃ a, StateT.run op s = (.ok a, s') ∧ r = .ok a) ∨
      ∃ reason, StateT.run op s = (.error reason, s') ∧ r = .error (fault reason) := by
  rw [run_attempt] at h
  obtain ⟨rfl, rfl⟩ := Prod.mk.inj h
  rcases StateT.run op s with ⟨a | reason, t⟩
  · exact .inr ⟨_, rfl, rfl⟩
  · exact .inl ⟨_, rfl, rfl⟩

/-- What follows an operation runs on its result and the state that it leaves. -/
theorem run_lift_bind (op : StateM σ α) (f : α → Access (StateM σ) β) (s : σ) :
    ((liftM op : Access (StateM σ) α) >>= f).run.run s =
      (f (StateT.run op s).1).run.run (StateT.run op s).2 := rfl

/-- A portion is tried once more if it cannot be written. -/
theorem run_appendPortion [Disk (StateM σ)] (p : Path) (x : Portion) (s : σ) :
    let append : StateM σ (Except String PUnit) := Disk.appendFile p x.bytes
    (appendPortion p x : Access (StateM σ) PUnit).run.run s =
      match StateT.run append s with
      | (.ok _, t) => (.ok ⟨⟩, t)
      | (.error reason, t) => (.error (x.fault reason), (StateT.run append t).2) := by
  intro append
  rw [appendPortion, run_lift_bind]
  rcases StateT.run append s with ⟨_ | _, t⟩ <;> rfl

/-- Programs that succeed and change nothing do so one after another. -/
theorem run_mapM_of_forall {f : α → Access (StateM σ) β} {g : α → β} {xs : List α}
    (h : ∀ x ∈ xs, (f x).run.run s = (.ok (g x), s)) :
    (xs.mapM f).run.run s = (.ok (xs.map g), s) := by
  induction xs with
  | nil => rfl
  | cons x xs ih =>
    obtain ⟨hx, hxs⟩ := List.forall_mem_cons.mp h
    rw [List.mapM_cons, run_bind_of_ok hx, run_bind_of_ok (ih hxs)]
    rfl

end FirmwareMatch.Access
