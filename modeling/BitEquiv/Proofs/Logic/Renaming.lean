import BitEquiv.Logic.Typing
import BitEquiv.Logic.Eval
import BitEquiv.Proofs.Text.Assoc

/-!
# Renaming

Renaming commutes with sorts and with values. A renamed term has in a scope what the term has in
the scope behind the renaming, and in an assignment what the term has in the assignment behind
it. Errors are the same, except that an unbound name is reported under its new name.
-/

namespace BitEquiv
namespace Logic

def SortError.rename (f : String → String) : SortError → SortError
  | unbound x => unbound (f x)
  | e => e

def EvalError.rename (f : String → String) : EvalError → EvalError
  | unbound x => unbound (f x)
  | e => e

/-!
## Errors under another name
-/

section MapError

variable {ε ε' α β : Type} (g : ε → ε')

@[simp] theorem mapError_bind (x : Except ε α) (k : α → Except ε β) :
    (x >>= k).mapError g = x.mapError g >>= fun a => (k a).mapError g := by
  cases x <;> rfl

@[simp] theorem mapError_map (h : α → β) (x : Except ε α) :
    (h <$> x).mapError g = h <$> x.mapError g := by
  cases x <;> rfl

@[simp] theorem mapError_pure (a : α) : (pure a : Except ε α).mapError g = pure a := rfl

@[simp] theorem mapError_throw (e : ε) : (throw e : Except ε α).mapError g = throw (g e) := rfl

@[simp] theorem mapError_ite {c : Prop} [Decidable c] (x y : Except ε α) :
    (if c then x else y).mapError g = if c then x.mapError g else y.mapError g :=
  apply_ite (Except.mapError g) c x y

end MapError

namespace Value

variable (f : String → String)

@[simp] theorem expectBool_rename (op : String) (v : Value) :
    (v.expectBool op).mapError (EvalError.rename f) = v.expectBool op := by
  cases v <;> rfl

@[simp] theorem expectWord_rename (op : String) (v : Value) :
    (v.expectWord op).mapError (EvalError.rename f) = v.expectWord op := by
  cases v <;> rfl

@[simp] theorem expectWords_rename (op : String) (l r : Value) :
    (l.expectWords op r).mapError (EvalError.rename f) = l.expectWords op r := by
  simp [expectWords, EvalError.rename]

@[simp] theorem equal_rename (l r : Value) :
    (l.equal r).mapError (EvalError.rename f) = l.equal r := by
  unfold equal
  split <;> rfl

@[simp] theorem widened_rename (bits width : Nat) :
    (widened bits width).mapError (EvalError.rename f) = widened bits width := by
  unfold widened
  split <;> rfl

end Value

namespace Term

section Sorts

variable (f : String → String)

@[simp] theorem checkedWidth_rename (w : Nat) :
    (checkedWidth w).mapError (SortError.rename f) = checkedWidth w := by
  unfold checkedWidth
  split <;> rfl

@[simp] theorem asBoolSort_rename (s : BvSort) :
    (asBoolSort s).mapError (SortError.rename f) = asBoolSort s := by
  cases s <;> rfl

@[simp] theorem asWordSort_rename (s : BvSort) :
    (asWordSort s).mapError (SortError.rename f) = asWordSort s := by
  cases s <;> rfl

end Sorts

/-!
## Sorts
-/

mutual

theorem sortOf_rename (f : String → String) (scope : Scope) :
    ∀ t : Term, (t.rename f).sortOf scope =
      (t.sortOf (scope ∘ f)).mapError (SortError.rename f)
  | .var x => by
      simp only [rename, sortOf, Function.comp_apply]
      cases scope (f x) <;> rfl
  | .boolLit _ => rfl
  | .bvLit _ w _ => (checkedWidth_rename f w).symm
  | .not a | .unary _ a | .zeroExtend _ a | .signExtend _ a => by
      simp [rename, sortOf, sortOf_rename f scope a]
  | .and as | .or as => by
      simp [rename, sortOf, allBool_renameAll f scope as]
  | .xor a b | .implies a b | .concat a b => by
      simp [rename, sortOf, sortOf_rename f scope a, sortOf_rename f scope b]
  | .eq a b | .distinct a b | .binary _ a b | .compare _ a b => by
      simp [rename, sortOf, sortOf_rename f scope a, sortOf_rename f scope b, SortError.rename]
  | .ite c a b => by
      simp [rename, sortOf, sortOf_rename f scope c, sortOf_rename f scope a,
        sortOf_rename f scope b, SortError.rename]
  | .extract _ _ a => by
      simp [rename, sortOf, sortOf_rename f scope a, SortError.rename]

theorem allBool_renameAll (f : String → String) (scope : Scope) :
    ∀ ts : List Term, allBool scope (renameAll f ts) =
      (allBool (scope ∘ f) ts).mapError (SortError.rename f)
  | [] => rfl
  | t :: ts => by
      simp [renameAll, allBool, sortOf_rename f scope t, allBool_renameAll f scope ts]

end

/-!
## Values
-/

mutual

def names : Term → List String
  | var x => [x]
  | boolLit _ => []
  | bvLit .. => []
  | not a => names a
  | and as => namesAll as
  | or as => namesAll as
  | xor a b => names a ++ names b
  | implies a b => names a ++ names b
  | eq a b => names a ++ names b
  | distinct a b => names a ++ names b
  | ite c a b => names c ++ (names a ++ names b)
  | unary _ a => names a
  | binary _ a b => names a ++ names b
  | compare _ a b => names a ++ names b
  | extract _ _ a => names a
  | concat a b => names a ++ names b
  | zeroExtend _ a => names a
  | signExtend _ a => names a

def namesAll : List Term → List String
  | [] => []
  | t :: ts => names t ++ namesAll ts

end

end Term

/-- Some names have in the second assignment the values that their new names have in the
first. -/
def Env.IsPullback (f : String → String) (env env' : Env) (xs : List String) : Prop :=
  ∀ x ∈ xs, env'.get? x = env.get? (f x)

theorem Env.isPullback_append {f : String → String} {env env' : Env} {xs ys : List String} :
    Env.IsPullback f env env' (xs ++ ys) ↔
      Env.IsPullback f env env' xs ∧ Env.IsPullback f env env' ys :=
  List.forall_mem_append

/-- Some names with the values of their new names. -/
def Env.pullback (f : String → String) (env : Env) (xs : List String) : Env :=
  xs.filterMap fun x => (env.get? (f x)).map fun v => (x, v)

theorem Env.get?_pullback (f : String → String) (env : Env) (xs : List String) (x : String) :
    (env.pullback f xs).get? x = if x ∈ xs then env.get? (f x) else none := by
  induction xs with
  | nil => rfl
  | cons y ys ih =>
      unfold pullback at ih ⊢
      rw [List.filterMap_cons]
      cases hy : env.get? (f y) with
      | none =>
          rw [Option.map_none, ih]
          by_cases hx : x = y
          · rw [hx, hy, ite_self, ite_self]
          · simp only [List.mem_cons, hx, false_or]
      | some v =>
          rw [Option.map_some, Assoc.get?_cons, ih]
          by_cases hx : x = y
          · rw [if_pos hx, if_pos (hx ▸ List.mem_cons_self), hx, hy]
          · simp only [List.mem_cons, hx, false_or, if_false]

theorem Env.isPullback_pullback (f : String → String) (env : Env) (xs : List String) :
    Env.IsPullback f env (env.pullback f xs) xs := by
  intro x hx
  rw [Env.get?_pullback, if_pos hx]

namespace Term

mutual

theorem eval_rename {f : String → String} {env env' : Env} :
    ∀ t : Term, Env.IsPullback f env env' t.names →
      (t.rename f).eval env = (t.eval env').mapError (EvalError.rename f)
  -- Only here is an assignment read; every other case hands on what its operands give.
  | .var x, h => by
      have hx := h x (List.mem_singleton_self x)
      simp only [rename, eval, hx]
      cases env.get? (f x) <;> rfl
  | .boolLit _, _ => rfl
  | .bvLit .., _ => rfl
  | .not a, h | .unary _ a, h | .extract _ _ a, h | .zeroExtend _ a, h | .signExtend _ a, h => by
      simp [rename, eval, eval_rename a h, EvalError.rename]
  | .and as, h | .or as, h => by
      simp [rename, eval, evalAll_renameAll as h]
  | .xor a b, h | .implies a b, h | .eq a b, h | .distinct a b, h | .binary _ a b, h
  | .compare _ a b, h | .concat a b, h => by
      rcases Env.isPullback_append.mp h with ⟨ha, hb⟩
      simp [rename, eval, eval_rename a ha, eval_rename b hb]
  | .ite c a b, h => by
      rcases Env.isPullback_append.mp h with ⟨hc, hab⟩
      rcases Env.isPullback_append.mp hab with ⟨ha, hb⟩
      simp [rename, eval, eval_rename c hc, eval_rename a ha, eval_rename b hb]

theorem evalAll_renameAll {f : String → String} {env env' : Env} {op : String} :
    ∀ ts : List Term, Env.IsPullback f env env' (namesAll ts) →
      evalAll env op (renameAll f ts) = (evalAll env' op ts).mapError (EvalError.rename f)
  | [], _ => rfl
  | t :: ts, h => by
      rcases Env.isPullback_append.mp h with ⟨ht, hts⟩
      simp [renameAll, evalAll, eval_rename t ht, evalAll_renameAll ts hts]

end

/-!
## Composition
-/

mutual

@[simp] theorem rename_rename (f g : String → String) :
    ∀ t : Term, (t.rename f).rename g = t.rename (g ∘ f)
  | .var _ | .boolLit _ | .bvLit .. => rfl
  | .not a | .unary _ a | .extract _ _ a | .zeroExtend _ a | .signExtend _ a => by
      simp only [rename, rename_rename f g a]
  | .and as | .or as => by
      simp only [rename, renameAll_renameAll f g as]
  | .xor a b | .implies a b | .eq a b | .distinct a b | .binary _ a b | .compare _ a b
  | .concat a b => by
      simp only [rename, rename_rename f g a, rename_rename f g b]
  | .ite c a b => by
      simp only [rename, rename_rename f g c, rename_rename f g a, rename_rename f g b]

theorem renameAll_renameAll (f g : String → String) :
    ∀ ts : List Term, renameAll g (renameAll f ts) = renameAll (g ∘ f) ts
  | [] => rfl
  | t :: ts => by
      simp only [renameAll, rename_rename f g t, renameAll_renameAll f g ts]

end

/-- Renaming commutes with sorts and with values, errors included, and two renamings are one.
Every assignment can be pulled back to the names of a term. -/
theorem rename_commutes (t : Term) (f : String → String) :
    (∀ scope : Scope, (t.rename f).sortOf scope =
        (t.sortOf (scope ∘ f)).mapError (SortError.rename f)) ∧
      (∀ env env' : Env, Env.IsPullback f env env' t.names →
        (t.rename f).eval env = (t.eval env').mapError (EvalError.rename f)) ∧
      (∀ env : Env, Env.IsPullback f env (env.pullback f t.names) t.names) ∧
      ∀ g : String → String, (t.rename f).rename g = t.rename (g ∘ f) :=
  ⟨fun scope => sortOf_rename f scope t, fun _ _ h => eval_rename t h,
    fun env => Env.isPullback_pullback f env t.names, fun g => rename_rename f g t⟩

def guarded : Term := .ite (.var "p") (.binary .sub (.var "a") (.var "b")) (.var "c")

def guardedEnv (p : Bool) : Env :=
  [("in_b", .word 7 8), ("in_a", .word 5 8), ("in_p", .bool p)]

/-- Operands keep their order, and only the branch that is taken must have a value. -/
theorem rename_commutes_guarded :
    (guarded.rename ("in_" ++ ·)).eval (guardedEnv true) = .ok (.word 254 8) ∧
      (guarded.rename ("in_" ++ ·)).eval (guardedEnv false) = .error (.unbound "in_c") := by
  have hback : ∀ p, Env.IsPullback ("in_" ++ ·) (guardedEnv p)
      [("p", .bool p), ("a", .word 5 8), ("b", .word 7 8)] guarded.names := by
    intro p x hx
    simp only [guarded, names, List.cons_append, List.nil_append, List.mem_cons,
      List.not_mem_nil, or_false] at hx
    rcases hx with rfl | rfl | rfl | rfl <;> rfl
  have hcommutes := (rename_commutes guarded ("in_" ++ ·)).2.1
  constructor
  · rw [hcommutes _ _ (hback true)]
    rfl
  · rw [hcommutes _ _ (hback false)]
    rfl

end Term
end Logic
end BitEquiv
