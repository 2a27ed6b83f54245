import ScriptModules.Disk.Step
import ScriptModules.Proofs.Data.Except

/-!
# Runs of steps on a disk

What a step does when it is run, without its notices: one equation for each way of building steps
(`value_on_bind` for sequences, `value_on_change` and `value_on_makeFolders` for changes). Inversion
lemmas take apart the run of a sequence that ended well (`ok_of_bind`) or not (`error_of_bind`), and
the run of a basic step that ended well (`ok_of_change`, `ok_of_makeFolders`).

`Raises step E` says that whatever the step fails with is in `E`. The rules follow the form of the
step, so that one look at each basic step tells what a whole program can fail with.
-/

namespace ScriptModules

theorem Logged.bind_assoc {α β γ : Type} (x : Logged α) (f : α → Logged β) (g : β → Logged γ) :
    x >>= f >>= g = x >>= fun a => f a >>= g := by
  show (⟨_, (x.notices ++ _) ++ _⟩ : Logged γ) = ⟨_, x.notices ++ (_ ++ _)⟩
  rw [List.append_assoc]
  rfl

instance : LawfulMonad Logged :=
  LawfulMonad.mk' Logged
    (fun x => congrArg (Logged.mk x.value) (List.append_nil x.notices))
    (fun _ _ => rfl)
    Logged.bind_assoc

namespace DiskStep

variable {ε δ α β : Type} {d d' : Disk} {x : DiskStep ε α} {f : α → DiskStep ε β} {E : ε → Prop}

@[simp] theorem value_on_pure (d : Disk) (a : α) :
    (on d (pure a : DiskStep ε α)).value = (d, .ok a) := rfl

@[simp] theorem value_on_throw (d : Disk) (e : ε) :
    (on d (throw e : DiskStep ε α)).value = (d, .error e) := rfl

@[simp] theorem value_on_get (d : Disk) :
    (on d (get : DiskStep ε Disk)).value = (d, .ok d) := rfl

@[simp] theorem value_on_set (d d' : Disk) :
    (on d (set d' : DiskStep ε Unit)).value = (d', .ok ⟨⟩) := rfl

@[simp] theorem value_on_notify (d : Disk) (n : Notice) :
    (on d (notify n : DiskStep ε Unit)).value = (d, .ok ()) := rfl

@[simp] theorem value_on_ofLogged (d : Disk) (y : Logged α) :
    (on d (ofLogged y : DiskStep ε α)).value = (d, .ok y.value) := rfl

@[simp] theorem value_on_ofExcept (d : Disk) (wrap : δ → ε) (y : Except δ α) :
    (on d (ofExcept wrap y)).value = (d, y.mapError wrap) := by
  cases y <;> rfl

@[simp] theorem value_on_adapt (d : Disk) (x : DiskStep δ α) (wrap : δ → ε) :
    (on d (x.adapt wrap)).value = ((on d x).value.1, (on d x).value.2.mapError wrap) := rfl

@[simp] theorem value_on_attempt (d : Disk) (x : DiskStep δ α) :
    (on d (x.attempt : DiskStep ε (Except δ α))).value =
      ((on d x).value.1, .ok (on d x).value.2) := rfl

/-- What a step fails with on a disk. -/
def fault? (d : Disk) (step : DiskStep ε α) : Option ε :=
  match (on d step).value.2 with
  | .error e => some e
  | .ok _ => none

theorem error_of_fault? {e : ε} (h : fault? d x = some e) : (on d x).value.2 = .error e := by
  unfold fault? at h
  split at h
  · next hvalue => rw [hvalue, Option.some.inj h]
  · cases h

/-- Does the step end well on a disk, with a result that passes the test? -/
def yields (d : Disk) (step : DiskStep ε α) (test : α → Bool) : Bool :=
  match (on d step).value.2 with
  | .error _ => false
  | .ok a => test a

theorem ok_of_yields {test : α → Bool} (h : yields d x test = true) :
    ∃ a, (on d x).value = ((on d x).value.1, .ok a) ∧ test a = true := by
  unfold yields at h
  split at h
  · cases h
  · next a hvalue => exact ⟨a, Prod.ext rfl hvalue, h⟩

/-- A sequence goes on from the disk that its first step left, unless that failed. -/
theorem value_on_bind (d : Disk) (x : DiskStep ε α) (f : α → DiskStep ε β) :
    (on d (x >>= f)).value = match (on d x).value with
      | (d', .ok a) => (on d' (f a)).value
      | (d', .error e) => (d', .error e) := by
  show ((((x >>= f) d).value.2, ((x >>= f) d).value.1) : Disk × Except ε β) =
    match (((x d).value.2, (x d).value.1) : Disk × Except ε α) with
      | (d', .ok a) => (on d' (f a)).value
      | (d', .error e) => (d', .error e)
  have hbind : ((x >>= f) d).value = (ExceptT.bindCont f (x d).value.1 (x d).value.2).value := rfl
  rw [hbind]
  cases (x d).value.1 <;> rfl

theorem value_on_bind_of_ok {a : α} (h : (on d x).value = (d', .ok a)) :
    (on d (x >>= f)).value = (on d' (f a)).value := by
  rw [value_on_bind, h]

theorem value_on_bind_congr {y : DiskStep ε α} {g : α → DiskStep ε β}
    (hx : (on d x).value = (on d y).value)
    (hf : ∀ d a, (on d (f a)).value = (on d (g a)).value) :
    (on d (x >>= f)).value = (on d (y >>= g)).value := by
  rw [value_on_bind, value_on_bind, hx]
  split
  · exact hf _ _
  · rfl

theorem ok_of_bind {b : β} (h : (on d (x >>= f)).value = (d', .ok b)) :
    ∃ d₁ a, (on d x).value = (d₁, .ok a) ∧ (on d₁ (f a)).value = (d', .ok b) := by
  rw [value_on_bind] at h
  split at h
  · next d₁ a hx => exact ⟨d₁, a, hx, h⟩
  · simp at h

theorem error_of_bind {e : ε} (h : (on d (x >>= f)).value = (d', .error e)) :
    (on d x).value = (d', .error e) ∨
      ∃ d₁ a, (on d x).value = (d₁, .ok a) ∧ (on d₁ (f a)).value = (d', .error e) := by
  rw [value_on_bind] at h
  split at h
  · next d₁ a hx => exact .inr ⟨d₁, a, hx, h⟩
  · next d₁ e' hx =>
    cases h
    exact .inl hx

theorem value_on_change (d : Disk) (wrap : DiskFault → ε) (g : Disk → Except DiskFault Disk) :
    (on d (change wrap g)).value = match g d with
      | .ok d' => (d', .ok ())
      | .error fault => (d, .error (wrap fault)) := by
  unfold change
  rw [value_on_bind]
  simp only [value_on_get]
  cases g d <;> rfl

theorem value_on_makeFolders (d : Disk) (wrap : DiskFault → ε) (p : Path) :
    (on d (makeFolders wrap p)).value =
      ((d.makeFolders p).1, (d.makeFolders p).2.mapError wrap) := by
  unfold makeFolders
  rw [value_on_bind]
  simp only [value_on_get]
  rw [value_on_bind]
  simp

theorem ok_of_ofExcept {wrap : δ → ε} {y : Except δ α} {a : α}
    (h : (on d (ofExcept wrap y)).value = (d', .ok a)) : d' = d ∧ y = .ok a := by
  rw [value_on_ofExcept] at h
  obtain ⟨rfl, hy⟩ := Prod.mk.inj h
  cases y with
  | ok b => exact ⟨rfl, by simpa using hy⟩
  | error e => simp at hy

theorem ok_of_change {wrap : DiskFault → ε} {g : Disk → Except DiskFault Disk} {u : Unit}
    (h : (on d (change wrap g)).value = (d', .ok u)) : g d = .ok d' := by
  rw [value_on_change] at h
  split at h
  · next hg => rw [hg, (Prod.mk.inj h).1]
  · simp at h

theorem value_on_makeFolders_of_ok {wrap : DiskFault → ε} {p : Path}
    (h : d.makeFolders p = (d', .ok ())) : (on d (makeFolders wrap p)).value = (d', .ok ()) := by
  rw [value_on_makeFolders, h, mapError_ok]

theorem ok_of_makeFolders {wrap : DiskFault → ε} {p : Path} {u : Unit}
    (h : (on d (makeFolders wrap p)).value = (d', .ok u)) : d.makeFolders p = (d', .ok ()) := by
  rw [value_on_makeFolders] at h
  obtain ⟨rfl, hresult⟩ := Prod.mk.inj h
  cases hm : (d.makeFolders p).2 with
  | ok _ => exact Prod.ext rfl hm
  | error fault => simp [hm] at hresult

/-! ## What a step fails with -/

/-- Whatever the step fails with is in `E`. -/
def Raises (x : DiskStep ε α) (E : ε → Prop) : Prop :=
  ∀ d d' e, (on d x).value = (d', .error e) → E e

namespace Raises

theorem pure (a : α) : Raises (pure a : DiskStep ε α) E := by
  intro d d' e h
  simp at h

theorem notify (n : Notice) : Raises (notify n : DiskStep ε Unit) E := by
  intro d d' e h
  simp at h

theorem bind (hx : Raises x E) (hf : ∀ a, Raises (f a) E) : Raises (x >>= f) E := by
  intro d d' e h
  rcases error_of_bind h with h | ⟨d₁, a, -, h⟩
  · exact hx d d' e h
  · exact hf a d₁ d' e h

theorem ofExcept (wrap : δ → ε) (y : Except δ α) (hwrap : ∀ e, y = .error e → E (wrap e)) :
    Raises (ofExcept wrap y) E := by
  intro d d' e h
  cases y with
  | ok a => simp at h
  | error fault =>
    simp only [value_on_ofExcept, mapError_error, Prod.mk.injEq, Except.error.injEq] at h
    exact h.2 ▸ hwrap fault rfl

theorem change (wrap : DiskFault → ε) (g : Disk → Except DiskFault Disk)
    (hwrap : ∀ e, E (wrap e)) : Raises (change wrap g) E := by
  intro d d' e h
  rw [value_on_change] at h
  split at h
  · simp at h
  · next fault _ =>
    simp only [Prod.mk.injEq, Except.error.injEq] at h
    exact h.2 ▸ hwrap fault

theorem makeFolders (wrap : DiskFault → ε) (p : Path) (hwrap : ∀ e, E (wrap e)) :
    Raises (makeFolders wrap p) E := by
  intro d d' e h
  rw [value_on_makeFolders] at h
  cases hm : (d.makeFolders p).2 with
  | ok a => simp [hm] at h
  | error fault =>
    simp only [hm, mapError_error, Prod.mk.injEq, Except.error.injEq] at h
    exact h.2 ▸ hwrap fault

theorem mapM (g : α → DiskStep ε β) (l : List α) (hg : ∀ a, Raises (g a) E) :
    Raises (l.mapM g) E := by
  induction l with
  | nil =>
    rw [List.mapM_nil]
    exact .pure _
  | cons a l ih =>
    rw [List.mapM_cons]
    exact (hg a).bind fun b => ih.bind fun bs => .pure _

end Raises

end DiskStep

end ScriptModules
