import Enclave.Procedure

/-! # Statements about procedures

`Ends P p` says that `p` ends in a value with the property `P` whatever the answers to its requests
are, and `Asks P p` that every request on the way has the property `P`.
`Safe handle asks ends p state` says more about one way of answering: every request is made in a
state in which `asks` admits it, and the end satisfies `ends`.  All follow `bind` (`ends_bind`,
`Asks.bind`, `safe_bind`), so they are proved for the parts of a procedure one after the other.

`Reaches` is the small steps of a run.  Whatever a safe procedure reaches is safe (`Safe.reaches`),
so `asks` holds at every moment, also when the procedure is stopped on the way.  The requests of a
run with their answers are its calls (`callsOf`): each is made when the run has come to it
(`exists_reaches`), and they tell what becomes of the state (`Reaches.exists_calls`).  `watched`
answers as before and takes notes, which changes nothing else (`run_watched`). -/

namespace Enclave.Procedure

variable {Request : Type} {Answer : Request → Type} {α β σ : Type}

/-! ### All answers -/

/-- Every run ends in a value with a property. -/
def Ends (P : α → Prop) : Procedure Answer α → Prop
  | done value => P value
  | ask _ next => ∀ answer, (next answer).Ends P

theorem ends_pure {P : α → Prop} {value : α} (h : P value) :
    (pure value : Procedure Answer α).Ends P := h

theorem ends_bind {P : β → Prop} {p : Procedure Answer α} {f : α → Procedure Answer β}
    (h : p.Ends fun value => (f value).Ends P) : (p >>= f).Ends P := by
  induction p with
  | done value => exact h
  | ask request next ih => exact fun answer => ih answer (h answer)

theorem Ends.mono {P Q : α → Prop} {p : Procedure Answer α} (h : p.Ends P)
    (hPQ : ∀ value, P value → Q value) : p.Ends Q := by
  induction p with
  | done value => exact hPQ value h
  | ask request next ih => exact fun answer => ih answer (h answer)

/-- A procedure ends in some value. -/
theorem ends_of_forall {P : α → Prop} {p : Procedure Answer α} (h : ∀ value, P value) :
    p.Ends P := by
  induction p with
  | done value => exact h value
  | ask request next ih => exact fun answer => ih answer

/-- What holds for all answers holds for those that are given. -/
theorem Ends.run {P : α → Prop} {p : Procedure Answer α} (h : p.Ends P)
    (handle : (request : Request) → σ → Answer request × σ) (state : σ) :
    P (p.run handle state).1 := by
  induction p generalizing state with
  | done value => exact h
  | ask request next ih => exact ih _ (h _) _

/-- Every request that is made has a property. -/
def Asks (P : Request → Prop) : Procedure Answer α → Prop
  | done _ => True
  | ask request next => P request ∧ ∀ answer, (next answer).Asks P

theorem asks_pure {P : Request → Prop} (value : α) : (pure value : Procedure Answer α).Asks P :=
  trivial

theorem asks_request {P : Request → Prop} {request : Request} (h : P request) :
    (Procedure.request request : Procedure Answer _).Asks P :=
  ⟨h, fun _ => trivial⟩

theorem Asks.bind {P : Request → Prop} {p : Procedure Answer α} {f : α → Procedure Answer β}
    (h : p.Asks P) (hf : ∀ value, (f value).Asks P) : (p >>= f).Asks P := by
  induction p with
  | done value => exact hf value
  | ask request next ih => exact ⟨h.1, fun answer => ih answer (h.2 answer)⟩

/-! ### One way of answering -/

variable {handle : (request : Request) → σ → Answer request × σ} {asks : Request → σ → Prop}
  {ends ends' : α → σ → Prop} {p : Procedure Answer α} {state state' : σ}

/-- Every request of a run is made in a state that admits it, and the end has a property. -/
def Safe (handle : (request : Request) → σ → Answer request × σ) (asks : Request → σ → Prop)
    (ends : α → σ → Prop) : Procedure Answer α → σ → Prop
  | done value, state => ends value state
  | ask request next, state =>
      asks request state ∧
        (next (handle request state).1).Safe handle asks ends (handle request state).2

theorem safe_bind {ends : β → σ → Prop} {f : α → Procedure Answer β}
    (h : p.Safe handle asks (fun value => (f value).Safe handle asks ends) state) :
    (p >>= f).Safe handle asks ends state := by
  induction p generalizing state with
  | done value => exact h
  | ask request next ih => exact ⟨h.1, ih _ h.2⟩

/-- A request and what is done with the answer. -/
theorem safe_request_bind {request : Request} {ends : β → σ → Prop}
    {f : Answer request → Procedure Answer β} (h : asks request state)
    (h' : (f (handle request state).1).Safe handle asks ends (handle request state).2) :
    (Procedure.request request >>= f).Safe handle asks ends state :=
  safe_bind ⟨h, h'⟩

/-- One of two procedures and what is done with its value. -/
theorem safe_ite_bind {c : Prop} [Decidable c] {ends : β → σ → Prop} {p q : Procedure Answer α}
    {f : α → Procedure Answer β}
    (h : (if c then p else q).Safe handle asks
      (fun value => (f value).Safe handle asks ends) state) :
    (if c then p >>= f else q >>= f).Safe handle asks ends state := by
  split
  · next hc =>
      rw [if_pos hc] at h
      exact safe_bind h
  · next hc =>
      rw [if_neg hc] at h
      exact safe_bind h

theorem Safe.mono (h : p.Safe handle asks ends state)
    (hends : ∀ value state, ends value state → ends' value state) :
    p.Safe handle asks ends' state := by
  induction p generalizing state with
  | done value => exact hends value state h
  | ask request next ih => exact ⟨h.1, ih _ h.2⟩

/-- The end of a safe run. -/
theorem Safe.run (h : p.Safe handle asks ends state) :
    ends (p.run handle state).1 (p.run handle state).2 := by
  induction p generalizing state with
  | done value => exact h
  | ask request next ih => exact ih _ h.2

/-- What is left of a procedure, and the state, after some of its requests. -/
inductive Reaches (handle : (request : Request) → σ → Answer request × σ) :
    Procedure Answer α → σ → Procedure Answer α → σ → Prop
  | refl (p : Procedure Answer α) (state : σ) : Reaches handle p state p state
  | step {request : Request} {next : Answer request → Procedure Answer α} {state state' : σ}
      {p : Procedure Answer α} :
      Reaches handle (next (handle request state).1) (handle request state).2 p state' →
      Reaches handle (ask request next) state p state'

theorem Safe.reaches {p' : Procedure Answer α} (h : p.Safe handle asks ends state)
    (hreaches : Reaches handle p state p' state') : p'.Safe handle asks ends state' := by
  induction hreaches with
  | refl => exact h
  | step _ ih => exact ih h.2

/-- Whatever a run has come to, it can be finished from there. -/
theorem Reaches.run {p' : Procedure Answer α} (h : Reaches handle p state p' state') :
    p'.run handle state' = p.run handle state := by
  induction h with
  | refl => rfl
  | step _ ih => exact ih

/-! ### Calls -/

/-- A request with its answer. -/
structure Call (Answer : Request → Type) where
  request : Request
  answer : Answer request

/-- The calls of a run. -/
def callsOf (handle : (request : Request) → σ → Answer request × σ) :
    Procedure Answer α → σ → List (Call Answer)
  | done _, _ => []
  | ask request next, state =>
      let (answer, state) := handle request state
      ⟨request, answer⟩ :: callsOf handle (next answer) state

theorem Asks.of_mem_callsOf {P : Request → Prop} (h : p.Asks P) {call : Call Answer}
    (hmem : call ∈ p.callsOf handle state) : P call.request := by
  induction p generalizing state with
  | done value => cases hmem
  | ask request next ih =>
      rcases List.mem_cons.mp hmem with rfl | hmem
      · exact h.1
      · exact ih _ (h.2 _) hmem

/-- The calls of one procedure after another. -/
theorem callsOf_bind (handle : (request : Request) → σ → Answer request × σ)
    (p : Procedure Answer α) (f : α → Procedure Answer β) (state : σ) :
    (p >>= f).callsOf handle state =
      p.callsOf handle state ++
        (f (p.run handle state).1).callsOf handle (p.run handle state).2 := by
  induction p generalizing state with
  | done value => rfl
  | ask request next ih => exact congrArg (_ :: ·) (ih _ _)

/-- Every call of a run is answered from some state. -/
theorem exists_of_mem_callsOf {call : Call Answer} (hmem : call ∈ p.callsOf handle state) :
    ∃ before, call.answer = (handle call.request before).1 := by
  induction p generalizing state with
  | done value => cases hmem
  | ask request next ih =>
      rcases List.mem_cons.mp hmem with rfl | hmem
      · exact ⟨state, rfl⟩
      · exact ih _ hmem

/-- Every call of a safe run is made in a state that admits it, and answered from there. -/
theorem Safe.exists_of_mem_callsOf (h : p.Safe handle asks ends state) {call : Call Answer}
    (hmem : call ∈ p.callsOf handle state) :
    ∃ before, asks call.request before ∧ call.answer = (handle call.request before).1 := by
  induction p generalizing state with
  | done value => cases hmem
  | ask request next ih =>
      rcases List.mem_cons.mp hmem with rfl | hmem
      · exact ⟨state, h.1, rfl⟩
      · exact ih _ h.2 hmem

/-- Every call of a run is made, and answered, when the run has come to it. -/
theorem exists_reaches {front back : List (Call Answer)} {call : Call Answer}
    (h : p.callsOf handle state = front ++ call :: back) : ∃ next moment,
      Reaches handle p state (.ask call.request next) moment ∧
        (ask call.request next).callsOf handle moment = call :: back ∧
        call.answer = (handle call.request moment).1 := by
  induction front generalizing p state with
  | nil =>
      cases p with
      | done value => cases h
      | ask request next =>
          obtain ⟨rfl, _⟩ := List.cons.inj h
          exact ⟨next, state, .refl _ _, h, rfl⟩
  | cons first front ih =>
      cases p with
      | done value => cases h
      | ask request next =>
          obtain ⟨next', moment, hreaches, hcalls⟩ := ih (List.cons.inj h).2
          exact ⟨next', moment, .step hreaches, hcalls⟩

/-- A run comes to its end. -/
theorem reaches_done (p : Procedure Answer α) (state : σ) :
    Reaches handle p state (.done (p.run handle state).1) (p.run handle state).2 := by
  induction p generalizing state with
  | done value => exact .refl _ _
  | ask request next ih => exact .step (ih _ _)

/-- What a view of the state becomes is what the calls so far make of it, if every answer goes with
what it does to the view. -/
theorem Reaches.exists_calls {ν : Type} (view : σ → ν) (after : ν → Call Answer → ν)
    (hview : ∀ request state, view (handle request state).2 =
      after (view state) ⟨request, (handle request state).1⟩)
    {p' : Procedure Answer α} (h : Reaches handle p state p' state') :
    ∃ front, p.callsOf handle state = front ++ p'.callsOf handle state' ∧
      view state' = front.foldl after (view state) := by
  induction h with
  | refl p state => exact ⟨[], rfl, rfl⟩
  | step _ ih =>
      obtain ⟨front, hcalls, hstate⟩ := ih
      exact ⟨_ :: front, congrArg _ hcalls, by rw [hstate, hview, List.foldl_cons]⟩

/-- The answers do not depend on what is forgotten of a state, if those to the requests that are made
do not. -/
theorem run_forget_of_calls {τ : Type} {handle' : (request : Request) → τ → Answer request × τ}
    (forget : σ → τ) (P : Request → Prop)
    (h : ∀ request, P request → ∀ state,
      handle' request (forget state) = ((handle request state).1, forget (handle request state).2))
    (hcalls : ∀ call ∈ p.callsOf handle state, P call.request) :
    p.run handle' (forget state) = ((p.run handle state).1, forget (p.run handle state).2) := by
  induction p generalizing state with
  | done value => rfl
  | ask request next ih =>
      rw [run, h request (hcalls _ List.mem_cons_self)]
      exact ih _ fun call hcall => hcalls call (List.mem_cons_of_mem _ hcall)

/-! ### Taking notes -/

variable {ω : Type}

/-- Answers as before and puts a note about every answer in front of the notes. -/
def watched (note : (request : Request) → Answer request → List ω)
    (handle : (request : Request) → σ → Answer request × σ) (request : Request)
    (state : σ × List ω) : Answer request × (σ × List ω) :=
  let (answer, after) := handle request state.1
  (answer, after, note request answer ++ state.2)

theorem watched_state (note : (request : Request) → Answer request → List ω) (request : Request)
    (state : σ × List ω) :
    (watched note handle request state).2.1 = (handle request state.1).2 := rfl

theorem watched_notes (note : (request : Request) → Answer request → List ω) (request : Request)
    (state : σ × List ω) :
    (watched note handle request state).2.2 =
      note request (handle request state.1).1 ++ state.2 := rfl

/-- What is answered does not depend on what is forgotten of a state. -/
theorem run_forget {τ : Type} (handle : (request : Request) → σ → Answer request × σ)
    {handle' : (request : Request) → τ → Answer request × τ} (forget : σ → τ)
    (h : ∀ request state,
      handle' request (forget state) = ((handle request state).1, forget (handle request state).2))
    (p : Procedure Answer α) (state : σ) :
    p.run handle' (forget state) = ((p.run handle state).1, forget (p.run handle state).2) :=
  run_forget_of_calls forget (fun _ => True) (fun request _ => h request) fun _ _ => trivial

/-- Taking notes changes nothing else. -/
theorem run_watched (handle : (request : Request) → σ → Answer request × σ)
    (note : (request : Request) → Answer request → List ω) (p : Procedure Answer α)
    (state : σ) (notes : List ω) :
    (p.run (watched note handle) (state, notes)).1 = (p.run handle state).1 ∧
      (p.run (watched note handle) (state, notes)).2.1 = (p.run handle state).2 := by
  have hforget : p.run handle state = _ :=
    run_forget (watched note handle) Prod.fst (fun _ _ => rfl) p (state, notes)
  exact ⟨(congrArg Prod.fst hforget).symm, (congrArg Prod.snd hforget).symm⟩

end Enclave.Procedure
