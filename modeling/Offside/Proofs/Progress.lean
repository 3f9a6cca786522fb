import Offside.Grammar.Cursor
import Offside.Proofs.Derivation.Statement

/-!
# Offside.Proofs.Progress

Reading **only goes forward**. Main statement: `Cursor.after_moves_forward`, about
any tokens and any requests to one cursor, failed ones included.

Two layers:

* A request moves the cursor to a later place, and past a token if it succeeds.
  The run of requests is then an induction on their list.
* A loop of the grammar is a condition and a body (`Loop.goesOn`, `Loop.body`).
  What the grammar reads there is read by going around (`Loop.outcome_of_goesOn`),
  each round takes a token, so no more rounds are made than there are tokens.
-/

namespace Offside.Grammar

/-! ### Steps without their results -/

/-- Whether reading succeeded, and the tokens that are left. -/
abbrev Outcome := Except Failure Unit × List Token

namespace Step

variable {j k : Nat} {ts : List Token} {α β : Type}

/-- The outcome of a step that is followed by `g` if it succeeds. -/
def followedBy (s : Step k ts α) (g : α → List Token → Outcome) : Outcome :=
  match s.run with
  | (.ok a, us) => g a us
  | (.error e, us) => (.error e, us)

/-- The outcome of a step. -/
def outcome (s : Step k ts α) : Outcome := s.followedBy fun _ us => (.ok (), us)

/-- What follows a step that succeeds. -/
theorem followedBy_of_ok {s : Step k ts α} {a : α} {us : List Token} (h : s.run = (.ok a, us))
    (g : α → List Token → Outcome) : s.followedBy g = g a us := by
  rw [followedBy, h]

/-- Nothing follows a step that fails. -/
theorem followedBy_of_error {s : Step k ts α} {e : Failure} {us : List Token}
    (h : s.run = (.error e, us)) (g : α → List Token → Outcome) :
    s.followedBy g = (.error e, us) := by
  rw [followedBy, h]

theorem ok_or_error (s : Step k ts α) :
    (∃ a us, s.run = (.ok a, us)) ∨ ∃ e us, s.run = (.error e, us) := by
  obtain ⟨result, rest, hsuffix, hprogress⟩ := s
  cases result with
  | ok a => exact .inl ⟨a, rest, rfl⟩
  | error e => exact .inr ⟨e, rest, rfl⟩

@[simp] theorem followedBy_done (a : α) (g : α → List Token → Outcome) :
    (done a : Step 0 ts α).followedBy g = g a ts := rfl

@[simp] theorem followedBy_consume (t : Token) (s : Step k ts α) (g : α → List Token → Outcome) :
    (consume t s).followedBy g = s.followedBy g := rfl

@[simp] theorem followedBy_loosen (s : Step k ts α) (g : α → List Token → Outcome) :
    s.loosen.followedBy g = s.followedBy g := rfl

@[simp] theorem followedBy_map (f : α → β) (s : Step k ts α) (g : β → List Token → Outcome) :
    (s.map f).followedBy g = s.followedBy fun a us => g (f a) us := by
  obtain ⟨a, us, h⟩ | ⟨e, us, h⟩ := s.ok_or_error
  · rw [followedBy_of_ok h, followedBy_of_ok (run_map_of_ok h f)]
  · have hmap : (s.map f).run = (.error e, us) := by
      rw [run_map, h]
      rfl
    rw [followedBy_of_error h, followedBy_of_error hmap]

/-- The order of steps is all that matters, not how they are grouped. -/
@[simp] theorem followedBy_andThen (s : Step k ts α) (f : α → (us : List Token) → Step j us β)
    (g : β → List Token → Outcome) :
    (s.andThen fun a us _ => f a us).followedBy g =
      s.followedBy fun a us => (f a us).followedBy g := by
  obtain ⟨a, us, h⟩ | ⟨e, us, h⟩ := s.ok_or_error
  · obtain ⟨_, hrun⟩ := run_andThen_of_ok h fun a us _ => f a us
    rw [followedBy_of_ok h, followedBy, hrun, followedBy]
  · rw [followedBy_of_error h, followedBy_of_error (run_andThen_of_error h _)]

end Step

/-! ### Loops

The loops of the grammar, each with the test by which it goes on and what it does in
one round. A round takes at least one token, which is why all of them end.
-/

/-- A loop of the grammar, in the state in which one of its rounds begins. -/
inductive Loop where
  /-- The statements of a program. -/
  | program
  /-- The statements of a block. -/
  | block
  /-- The operators after the operand `left`. -/
  | operators (minPower : Nat) (left : Expr)
  /-- The attributes, calls and indices after `base`. -/
  | trailers (base : Expr)
  /-- The arguments of a call after the first one. -/
  | arguments
  /-- The items of a list after the first one. -/
  | items
  /-- The parameters of a function after the first one. -/
  | parameters
  /-- The parts of a dotted name after the first one. -/
  | parts
  /-- The `elif` branches of a conditional. -/
  | branches

namespace Loop

variable {ctx : Context}

/-- The condition of a loop: one more round begins here. -/
def goesOn (ctx : Context) : Loop → List Token → Bool
  | _, [] => false
  | .program, _ => true
  | .block, t :: _ => t.kind ≠ .dedent
  | .operators minPower _, t :: _ => (binaryOp? t).any (minPower ≤ ·.precedence)
  | .trailers _, t :: _ => startsTrailer t
  | .arguments, t :: _ => t.is .delimiter ","
  -- The last comma of a list may stand before its bracket.
  | .items, t :: us => t.is .delimiter "," && !(peek ctx.endLine us).is .delimiter "]"
  | .parameters, t :: _ => t.is .delimiter ","
  | .parts, t :: _ => t.kind = .dot
  | .branches, t :: _ => t.is .keyword "elif"

/-- The body of a loop: one round, and the state after it. -/
def body (ctx : Context) : Loop → (ts : List Token) → Step 1 ts Loop
  | _, [] => .fail (unexpected (Token.eof ctx.endLine))
  | .program, t :: us =>
    if t.kind = .dedent then .consume t (.done .program)
    else (statement ctx (t :: us)).map fun _ => .program
  | .block, t :: us => (statement ctx (t :: us)).map fun _ => .block
  | .operators minPower left, t :: us =>
    match binaryOp? t with
    | none => .fail (unexpected t)
    | some op =>
      .consume t ((expression ctx (op.precedence + 1) us).map fun right =>
        .operators minPower (.binary left op right t.line))
  | .trailers base, t :: us =>
    if t.kind = .dot then
      .consume t ((expect ctx.endLine .identifier none us).map fun name =>
        .trailers (.attr base name.text))
    else if t.is .delimiter "(" then
      .consume t ((Grammar.arguments ctx us).map fun args => .trailers (.call base args))
    else
      .consume t ((expression ctx 0 us).andThen fun position vs _ =>
        (expect ctx.endLine .delimiter (some "]") vs).map fun _ =>
          .trailers (.index base position))
  | .arguments, t :: us => .consume t ((expression ctx 0 us).map fun _ => .arguments)
  | .items, t :: us => .consume t ((expression ctx 0 us).map fun _ => .items)
  | .parameters, t :: us =>
    .consume t ((expect ctx.endLine .identifier none us).map fun _ => .parameters)
  | .parts, t :: us => .consume t ((expect ctx.endLine .identifier none us).map fun _ => .parts)
  | .branches, t :: us =>
    .consume t ((expression ctx 0 us).andThen fun _ vs _ =>
      (Grammar.block ctx vs).map fun _ => .branches)

/-- What the grammar makes of the tokens from the start of a round on, up to the end of
what the loop is part of: the block with its `dedent`, the call with its parenthesis. -/
def outcome (ctx : Context) : Loop → List Token → Outcome
  | .program, ts => (Grammar.program ctx ts).outcome
  | .block, ts => (blockBody ctx ts).outcome
  | .operators minPower left, ts => (climb ctx minPower left ts).outcome
  | .trailers base, ts => (Grammar.trailers ctx base ts).outcome
  | .arguments, ts => (moreArguments ctx ts).outcome
  | .items, ts => (moreItems ctx ts).outcome
  | .parameters, ts => (moreParameters ctx ts).outcome
  | .parts, ts => (moreParts ctx ts).outcome
  | .branches, ts => (alternate ctx ts).outcome

/-- While the condition holds, the grammar goes around: it runs the body, and then
reads on as from the state after it. -/
theorem outcome_of_goesOn {loop : Loop} {ts : List Token} (h : loop.goesOn ctx ts = true) :
    loop.outcome ctx ts = (loop.body ctx ts).followedBy fun next us => next.outcome ctx us := by
  cases ts with
  | nil => cases loop <;> cases h
  | cons t us =>
      cases loop with
      | program =>
          rw [outcome, Grammar.program, body]
          split
          · simp only [Step.outcome, Step.followedBy_loosen, Step.followedBy_consume,
              Step.followedBy_done, outcome]
          · simp only [Step.outcome, Step.followedBy_loosen, Step.followedBy_andThen,
              Step.followedBy_map, outcome]
      | block =>
          have hdedent : t.kind ≠ .dedent := of_decide_eq_true h
          rw [outcome, blockBody, if_neg hdedent, body]
          simp only [Step.outcome, Step.followedBy_loosen, Step.followedBy_andThen,
            Step.followedBy_map, outcome]
      | operators minPower left =>
          obtain ⟨op, hop, hpower⟩ := (Option.any_eq_true _ _).1 h
          have hpower : ¬ op.precedence < minPower := Nat.not_lt.2 (of_decide_eq_true hpower)
          rw [outcome, climb, body]
          simp [Step.outcome, outcome, hop, hpower]
      | trailers base =>
          rw [outcome, Grammar.trailers, body]
          by_cases hdot : t.kind = .dot
          · simp [Step.outcome, outcome, hdot]
          · by_cases hcall : t.is .delimiter "(" = true
            · simp [Step.outcome, outcome, hdot, hcall]
            · have hindex : t.is .delimiter "[" = true := by
                simpa [goesOn, startsTrailer, hdot, hcall] using h
              simp [Step.outcome, outcome, hdot, hcall, hindex]
      | arguments =>
          have hcomma : t.is .delimiter "," = true := h
          rw [outcome, moreArguments, if_pos hcomma, body]
          simp [Step.outcome, outcome]
      | items =>
          obtain ⟨hcomma, hbracket⟩ := Bool.and_eq_true_iff.1 h
          have hbracket : ¬ (peek ctx.endLine us).is .delimiter "]" = true := by
            simpa using hbracket
          rw [outcome, moreItems, if_pos hcomma, Grammar.items, if_neg hbracket, body]
          simp [Step.outcome, outcome]
      | parameters =>
          have hcomma : t.is .delimiter "," = true := h
          rw [outcome, moreParameters, if_pos hcomma, body]
          simp [Step.outcome, outcome]
      | parts =>
          have hdot : t.kind = .dot := of_decide_eq_true h
          rw [outcome, moreParts, if_pos hdot, body]
          simp [Step.outcome, outcome]
      | branches =>
          have helif : t.is .keyword "elif" = true := h
          rw [outcome, alternate, if_pos helif, body]
          simp [Step.outcome, outcome]

/-- So many rounds lead from one state and place of a loop to another. -/
inductive Rounds (ctx : Context) : Nat → Loop → List Token → Loop → List Token → Prop where
  | none {loop : Loop} {ts : List Token} : Rounds ctx 0 loop ts loop ts
  | round {n : Nat} {loop next last : Loop} {ts us vs : List Token} :
      loop.goesOn ctx ts = true → (loop.body ctx ts).run = (.ok next, us) →
      Rounds ctx n next us last vs → Rounds ctx (n + 1) loop ts last vs

/-- Every round takes a token. -/
theorem length_lt_of_body {loop next : Loop} {ts us : List Token}
    (h : (loop.body ctx ts).run = (.ok next, us)) : us.length < ts.length := by
  obtain ⟨hresult, hrest⟩ := Prod.mk.inj h
  have hprogress := (loop.body ctx ts).progress next hresult
  rwa [hrest] at hprogress

/-- **Each round takes a token**, so there are no more rounds than tokens. -/
theorem Rounds.add_length_le {n : Nat} {loop last : Loop} {ts us : List Token}
    (h : Rounds ctx n loop ts last us) : n + us.length ≤ ts.length := by
  induction h with
  | none => omega
  | round _ hbody _ ih =>
      have hlt := length_lt_of_body hbody
      omega

/-- Where rounds lead, the grammar makes the same of the tokens. -/
theorem Rounds.outcome_eq {n : Nat} {loop last : Loop} {ts us : List Token}
    (h : Rounds ctx n loop ts last us) : loop.outcome ctx ts = last.outcome ctx us := by
  induction h with
  | none => rfl
  | round hgoes hbody _ ih => rw [outcome_of_goesOn hgoes, Step.followedBy_of_ok hbody, ih]

/-- The loop is over: its condition does not hold, or its body fails and all fails
with it. -/
def IsOver (ctx : Context) (loop : Loop) (ts : List Token) : Prop :=
  loop.goesOn ctx ts = false ∨
    ∃ e us, (loop.body ctx ts).run = (.error e, us) ∧ loop.outcome ctx ts = (.error e, us)

/-- A loop comes to an end after some number of rounds. -/
theorem exists_rounds (loop : Loop) (ts : List Token) :
    ∃ n last us, Rounds ctx n loop ts last us ∧ last.IsOver ctx us := by
  cases hgoes : loop.goesOn ctx ts with
  | false => exact ⟨0, loop, ts, .none, .inl hgoes⟩
  | true =>
      obtain ⟨next, us, hbody⟩ | ⟨e, us, hbody⟩ := (loop.body ctx ts).ok_or_error
      · have hlt := length_lt_of_body hbody
        obtain ⟨n, last, vs, hrounds, hover⟩ := exists_rounds next us
        exact ⟨n + 1, last, vs, .round hgoes hbody hrounds, hover⟩
      · refine ⟨0, loop, ts, .none, .inr ⟨e, us, hbody, ?_⟩⟩
        rw [outcome_of_goesOn hgoes, Step.followedBy_of_error hbody]
termination_by ts.length

/-- The loop ends, after no more rounds than there are tokens, and what the grammar
reads is what it reads from its last round on. -/
structure Ends (ctx : Context) (loop : Loop) (ts : List Token) : Prop where
  bounded : ∀ n last us, Rounds ctx n loop ts last us → n ≤ ts.length
  finishes : ∃ n last us, Rounds ctx n loop ts last us ∧ last.IsOver ctx us ∧
    loop.outcome ctx ts = last.outcome ctx us

theorem ends (ctx : Context) (loop : Loop) (ts : List Token) : loop.Ends ctx ts := by
  constructor
  · intro n last us hrounds
    have hle := hrounds.add_length_le
    omega
  · obtain ⟨n, last, us, hrounds, hover⟩ := exists_rounds loop ts
    exact ⟨n, last, us, hrounds, hover, hrounds.outcome_eq⟩

end Loop

/-! ### Requests to a cursor -/

/-- What a cursor can be asked to read. -/
inductive Request where
  | statement
  | expression (minPower : Nat)
  | program

namespace Cursor

/-- Whether a request succeeds, and the cursor after it. -/
def answer (c : Cursor) : Request → Bool × Cursor
  | .statement => (c.statement.1.isOk, c.statement.2)
  | .expression minPower => ((c.expression minPower).1.isOk, (c.expression minPower).2)
  | .program => (c.program.1.isOk, c.program.2)

/-- The cursor after requests, whether they succeed or not. -/
def after (c : Cursor) (requests : List Request) : Cursor :=
  requests.foldl (fun c request => (c.answer request).2) c

/-- The number of tokens that a cursor is past. -/
def position (ts : List Token) (c : Cursor) : Nat := ts.length - c.rest.length

variable {k : Nat} {ts : List Token} {c : Cursor} {α : Type}

theorem exists_of_isOk {r : Except Failure α} (h : r.isOk = true) : ∃ a, r = .ok a := by
  cases r with
  | ok a => exact ⟨a, rfl⟩
  | error e => cases h

/-- A cursor is given by its position. -/
theorem rest_eq_drop_position (h : c.rest <:+ ts) : c.rest = ts.drop (c.position ts) := by
  obtain ⟨before, rfl⟩ := h
  simp [position]

/-- A step from a cursor is also a step in all of the tokens. -/
theorem position_take (h : c.rest <:+ ts) (s : Step k c.rest α) :
    (c.take s).2.rest <:+ ts ∧ c.position ts ≤ (c.take s).2.position ts ∧
      ((c.take s).1.isOk = true → c.position ts + k ≤ (c.take s).2.position ts) := by
  have hle := h.length_le
  refine ⟨s.suffix.trans h, ?_, ?_⟩
  · have hrest := s.suffix.length_le
    show ts.length - c.rest.length ≤ ts.length - s.rest.length
    omega
  · intro hok
    obtain ⟨a, hresult⟩ := exists_of_isOk hok
    have hprogress := s.progress a hresult
    show ts.length - c.rest.length + k ≤ ts.length - s.rest.length
    omega

/-- Reading a program that succeeds takes all tokens. -/
theorem rest_eq_nil_of_program {p : Program} (h : c.program.1 = .ok p) : c.program.2.rest = [] := by
  have hrun : ((Grammar.program c.context c.rest).map Program.mk).run = (.ok p, c.program.2.rest) :=
    Prod.ext h rfl
  obtain ⟨ss, hss, -⟩ := Step.map_eq_ok hrun
  exact (program_sound hss).2

theorem rest_answer_suffix (h : c.rest <:+ ts) (request : Request) :
    (c.answer request).2.rest <:+ ts := by
  cases request with
  | statement => exact (position_take h _).1
  | expression minPower => exact (position_take h _).1
  | program => exact (position_take h _).1

/-- After any requests, what is left is left of the tokens at the start. -/
theorem rest_after_suffix (h : c.rest <:+ ts) (requests : List Request) :
    (c.after requests).rest <:+ ts := by
  induction requests generalizing c with
  | nil => exact h
  | cons request requests ih => exact ih (rest_answer_suffix h request)

/-- After any requests, one more moves the cursor forward and not beyond the end. A
statement or an expression that is read moves it past a token, a program to the end.
The loops of the grammar end at any tokens. -/
theorem after_moves_forward (ts : List Token) (requests : List Request) (request : Request) :
    let c := (ofTokens ts).after requests
    let next := c.answer request
    c.rest = ts.drop (c.position ts) ∧
    c.position ts ≤ next.2.position ts ∧ next.2.position ts ≤ ts.length ∧
    (next.1 = true → request ≠ .program → c.position ts < next.2.position ts) ∧
    (next.1 = true → request = .program → next.2.position ts = ts.length) ∧
    ∀ ctx loop us, Loop.Ends ctx loop us := by
  intro c next
  have hrest : c.rest <:+ ts := rest_after_suffix List.suffix_rfl requests
  refine ⟨rest_eq_drop_position hrest, ?_, Nat.sub_le _ _, ?_, ?_, Loop.ends⟩
  · cases request with
    | statement => exact (position_take hrest _).2.1
    | expression minPower => exact (position_take hrest _).2.1
    | program => exact (position_take hrest _).2.1
  · intro hok hrequest
    cases request with
    | statement => exact (position_take hrest _).2.2 hok
    | expression minPower => exact (position_take hrest _).2.2 hok
    | program => exact absurd rfl hrequest
  · intro hok hrequest
    subst hrequest
    obtain ⟨p, hresult⟩ := exists_of_isOk hok
    show ts.length - c.program.2.rest.length = ts.length
    rw [rest_eq_nil_of_program hresult]
    rfl

end Cursor

end Offside.Grammar
