import ScriptModules.Log.Notice

/-!
# Results with notices

`Logged α` is a result together with the notices that were given on the way to it. It is a monad
whose steps append their notices; dropping the notices (`value`) turns it into plain composition.

Main statements: `value_bind`, `value_pure`, `value_foldlM`.
-/

namespace ScriptModules

/-- A result and the notices given while it was computed. -/
structure Logged (α : Type) where
  value : α
  notices : List Notice

namespace Logged

variable {α β σ : Type}

instance : Monad Logged where
  pure a := ⟨a, []⟩
  bind x f := ⟨(f x.value).value, x.notices ++ (f x.value).notices⟩

/-- Gives a notice. -/
def tell (n : Notice) : Logged Unit := ⟨(), [n]⟩

@[simp] theorem value_pure (a : α) : (pure a : Logged α).value = a := rfl

@[simp] theorem value_bind (x : Logged α) (f : α → Logged β) :
    (x >>= f).value = (f x.value).value := rfl

@[simp] theorem value_map (f : α → β) (x : Logged α) : (f <$> x).value = f x.value := rfl

theorem value_foldlM (f : σ → α → Logged σ) (s : σ) (l : List α) :
    (l.foldlM f s).value = l.foldl (fun s a => (f s a).value) s := by
  induction l generalizing s with
  | nil => rfl
  | cons a l ih => simp [List.foldlM_cons, ih]

end Logged

end ScriptModules
