import Enclave.Proofs.Procedure

/-! # Traces of procedures

A trace is the requests of a run with their answers, whatever these are: nothing is said about where
an answer comes from, so a statement about all traces holds also if the world is changed by others
between any two requests.  Every run has a trace (`trace_run`).  A trace of one procedure after
another is a trace of the first and then one of the second (`trace_bind_iff`), which takes traces
apart along the text of a procedure. -/

namespace Enclave.Procedure

variable {Request : Type} {Answer : Request → Type} {α β σ : Type}

/-- The calls by which a procedure can come to a value. -/
inductive Trace : Procedure Answer α → List (Call Answer) → α → Prop
  | done (value : α) : Trace (done value) [] value
  | ask {request : Request} {next : Answer request → Procedure Answer α} (answer : Answer request)
      {calls : List (Call Answer)} {value : α} :
      Trace (next answer) calls value → Trace (ask request next) (⟨request, answer⟩ :: calls) value

variable {p : Procedure Answer α} {calls : List (Call Answer)} {value : α}

theorem trace_pure_iff {result : α} :
    (pure value : Procedure Answer α).Trace calls result ↔ calls = [] ∧ result = value := by
  constructor
  · intro h
    cases h
    exact ⟨rfl, rfl⟩
  · rintro ⟨rfl, rfl⟩
    exact .done _

theorem trace_bind_iff {f : α → Procedure Answer β} {result : β} :
    (p >>= f).Trace calls result ↔ ∃ front value back,
      calls = front ++ back ∧ p.Trace front value ∧ (f value).Trace back result := by
  constructor
  · intro h
    induction p generalizing calls with
    | done value => exact ⟨[], value, calls, rfl, .done value, h⟩
    | ask request next ih =>
        cases h with
        | @ask _ _ answer rest _ h =>
            obtain ⟨front, value, back, rfl, hfront, hback⟩ := ih answer h
            exact ⟨⟨request, answer⟩ :: front, value, back, rfl, .ask answer hfront, hback⟩
  · rintro ⟨front, value, back, rfl, hfront, hback⟩
    induction hfront with
    | done value => exact hback
    | ask answer _ ih => exact .ask answer (ih hback)

/-- A request and what is done with the answer. -/
theorem trace_request_bind_iff {request : Request} {f : Answer request → Procedure Answer β}
    {result : β} :
    (Procedure.request request >>= f).Trace calls result ↔ ∃ answer rest,
      calls = ⟨request, answer⟩ :: rest ∧ (f answer).Trace rest result := by
  constructor
  · intro h
    cases h with
    | ask answer h => exact ⟨answer, _, rfl, h⟩
  · rintro ⟨answer, rest, rfl, h⟩
    exact .ask answer h

/-- Every request of a trace has a property that every request has. -/
theorem Asks.of_mem_trace {P : Request → Prop} (h : p.Asks P) (htrace : p.Trace calls value)
    {call : Call Answer} (hmem : call ∈ calls) : P call.request := by
  induction htrace with
  | done value => cases hmem
  | ask answer _ ih =>
      rcases List.mem_cons.mp hmem with rfl | hmem
      · exact h.1
      · exact ih (h.2 answer) hmem

/-- Every run has a trace. -/
theorem trace_run (handle : (request : Request) → σ → Answer request × σ)
    (p : Procedure Answer α) (state : σ) :
    p.Trace (p.callsOf handle state) (p.run handle state).1 := by
  induction p generalizing state with
  | done value => exact .done value
  | ask request next ih => exact .ask _ (ih _ _)

end Enclave.Procedure
