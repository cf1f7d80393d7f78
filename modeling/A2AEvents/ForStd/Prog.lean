import Mathlib.Logic.Relation

/-!
# Effect programs

Asynchronous code as a tree of effects. A `Prog S α` performs operations of a
signature `S` one after the other; each operation is answered by the outside
world and the rest of the program depends on the answer. Besides operations a
program may return, raise an exception, fork jobs that run beside it, join them
again, or diverge (a loop that has been unrolled as far as the caller asked).

The tree says nothing about what an operation does: that is a semantics, given
in `A2AEvents.ForStd.Machine` by a step function on a state.
-/

namespace Async

/-- An effect signature: the operations with the type of their answers, the jobs
    a program can fork, the value a job ends with and the exceptions. -/
structure Sig where
  Op : Type
  Res : Op → Type
  Job : Type
  Val : Type
  Err : Type

/-- Programs over a signature. A `join` hands over either the values of the
    joined jobs or the exception that the first of them to fail raised. -/
inductive Prog (S : Sig) (α : Type) : Type where
  | pure (a : α)
  | raise (e : S.Err)
  | diverge
  | op (o : S.Op) (k : S.Res o → Prog S α)
  | fork (js : List S.Job) (k : List Nat → Prog S α)
  | join (ids : List Nat) (k : Except S.Err (List S.Val) → Prog S α)

namespace Prog

variable {S : Sig} {α β γ : Type}

/-- Sequential composition; an exception skips the rest. -/
protected def bind : Prog S α → (α → Prog S β) → Prog S β
  | .pure a, f => f a
  | .raise e, _ => .raise e
  | .diverge, _ => .diverge
  | .op o k, f => .op o fun r => (k r).bind f
  | .fork js k, f => .fork js fun ids => (k ids).bind f
  | .join ids k, f => .join ids fun r => (k r).bind f

instance : Monad (Prog S) where
  pure := Prog.pure
  bind := Prog.bind

@[simp] theorem pure_eq (a : α) : (Pure.pure a : Prog S α) = .pure a := rfl

@[simp] theorem bind_pure_left (a : α) (f : α → Prog S β) :
    (Prog.pure a >>= f) = f a := rfl

@[simp] theorem bind_raise (e : S.Err) (f : α → Prog S β) :
    (Prog.raise e >>= f) = .raise e := rfl

@[simp] theorem bind_diverge (f : α → Prog S β) :
    ((Prog.diverge : Prog S α) >>= f) = .diverge := rfl

@[simp] theorem bind_op (o : S.Op) (k : S.Res o → Prog S α) (f : α → Prog S β) :
    (Prog.op o k >>= f) = .op o fun r => k r >>= f := rfl

@[simp] theorem bind_fork (js : List S.Job) (k : List Nat → Prog S α) (f : α → Prog S β) :
    (Prog.fork js k >>= f) = .fork js fun ids => k ids >>= f := rfl

@[simp] theorem bind_join (ids : List Nat) (k : Except S.Err (List S.Val) → Prog S α)
    (f : α → Prog S β) : (Prog.join ids k >>= f) = .join ids fun r => k r >>= f := rfl

/-- Perform one operation. -/
def call (o : S.Op) : Prog S (S.Res o) := .op o .pure

@[simp] theorem bind_call (o : S.Op) (f : S.Res o → Prog S β) :
    (call o >>= f) = .op o f := rfl

/-- A computation that may raise, as a program. -/
def lift : Except S.Err α → Prog S α
  | .ok a => .pure a
  | .error e => .raise e

@[simp] theorem lift_ok (a : α) : (lift (.ok a) : Prog S α) = .pure a := rfl

@[simp] theorem lift_error (e : S.Err) : (lift (.error e) : Prog S α) = .raise e := rfl

/-- Run a program to its end and hand the exception it may have raised over as a
    value: the first half of every `try`. -/
def attempt : Prog S α → Prog S (Except S.Err α)
  | .pure a => .pure (.ok a)
  | .raise e => .pure (.error e)
  | .diverge => .diverge
  | .op o k => .op o fun r => (k r).attempt
  | .fork js k => .fork js fun ids => (k ids).attempt
  | .join ids k => .join ids fun r => (k r).attempt

/-- Whether nothing is left to do. -/
def finished : Prog S α → Bool
  | .pure _ | .raise _ | .diverge => true
  | .op .. | .fork .. | .join .. => false

/-- What a finished program ended with. -/
def outcome : Prog S α → Option (Except S.Err α)
  | .pure a => some (.ok a)
  | .raise e => some (.error e)
  | _ => none

protected theorem bind_assoc (p : Prog S α) (f : α → Prog S β) (g : β → Prog S γ) :
    ((p >>= f) >>= g) = (p >>= fun a => f a >>= g) := by
  induction p with
  | pure a => rfl
  | raise e => rfl
  | diverge => rfl
  | op o k ih => simp only [bind_op]; congr 1; funext r; exact ih r
  | fork js k ih => simp only [bind_fork]; congr 1; funext ids; exact ih ids
  | join ids k ih => simp only [bind_join]; congr 1; funext r; exact ih r

end Prog

end Async
