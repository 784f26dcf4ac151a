/-! # Procedures

A procedure makes requests one after the other and goes on with their answers until it is done.  It
says nothing about how a request is answered: `run` answers requests from a state, and a statement
about all runs covers every way of answering them.  Procedures form a monad (`bind_done`,
`bind_assoc`), and running follows it (`run_bind`). -/

namespace Enclave

/-- A procedure with requests of a type and answers whose type depends on the request. -/
inductive Procedure {Request : Type} (Answer : Request → Type) (α : Type)
  | done (value : α)
  | ask (request : Request) (next : Answer request → Procedure Answer α)

namespace Procedure

variable {Request : Type} {Answer : Request → Type} {α β γ : Type}

/-- One procedure after another. -/
def bind : Procedure Answer α → (α → Procedure Answer β) → Procedure Answer β
  | done value, go => go value
  | ask request next, go => ask request fun answer => bind (next answer) go

instance : Monad (Procedure Answer) where
  pure := done
  bind := bind

/-- A single request. -/
def request (request : Request) : Procedure Answer (Answer request) :=
  ask request done

/-- Runs a procedure where requests are answered from a state. -/
def run {σ : Type} (handle : (request : Request) → σ → Answer request × σ) :
    Procedure Answer α → σ → α × σ
  | done value, state => (value, state)
  | ask request next, state =>
      let (answer, state) := handle request state
      run handle (next answer) state

/-! ### Laws -/

theorem bind_done (p : Procedure Answer α) : p.bind done = p := by
  induction p with
  | done value => rfl
  | ask request next ih => simp only [bind, ih]

theorem bind_assoc (p : Procedure Answer α) (f : α → Procedure Answer β)
    (g : β → Procedure Answer γ) : (p.bind f).bind g = p.bind fun a => (f a).bind g := by
  induction p with
  | done value => rfl
  | ask request next ih => simp only [bind, ih]

instance : LawfulMonad (Procedure Answer) :=
  LawfulMonad.mk' _ bind_done (fun _ _ => rfl) bind_assoc

/-- Running one procedure after another is running the first and then the second. -/
theorem run_bind {σ : Type} (handle : (request : Request) → σ → Answer request × σ)
    (p : Procedure Answer α) (f : α → Procedure Answer β) (state : σ) :
    run handle (p.bind f) state =
      run handle (f (run handle p state).1) (run handle p state).2 := by
  induction p generalizing state with
  | done value => rfl
  | ask request next ih => simp only [bind, run, ih]

end Procedure
end Enclave
