import Offside.Failure

/-!
# Offside.Grammar.Step

Steps of the parser. A step starts at a list of tokens and stops at a later
place in it, whether it succeeds or fails. `Step k ts α` is the outcome of a
step from `ts` whose success takes at least `k` tokens; both facts are in the
type, so that the grammar's recursion is well-founded by the number of tokens
left.
-/

namespace Offside.Grammar

/-- The outcome of a step from `ts`: a result, or the reason why there is none,
and the tokens that are left. -/
structure Step (k : Nat) (ts : List Token) (α : Type) where
  result : Except Failure α
  rest : List Token
  /-- What is left is a tail of the tokens. -/
  suffix : rest <:+ ts
  /-- Success takes at least `k` tokens. -/
  progress : ∀ a, result = .ok a → rest.length + k ≤ ts.length

namespace Step

variable {j k : Nat} {ts : List Token} {α β : Type}

/-- Success without taking a token. -/
def done (a : α) : Step 0 ts α :=
  ⟨.ok a, ts, List.suffix_rfl, fun _ _ => Nat.le_refl _⟩

/-- Failure without taking a token. -/
def fail (e : Failure) : Step k ts α :=
  ⟨.error e, ts, List.suffix_rfl, fun _ h => nomatch h⟩

/-- A result that takes no token. -/
def ofExcept (r : Except Failure α) : Step 0 ts α :=
  ⟨r, ts, List.suffix_rfl, fun _ _ => Nat.le_refl _⟩

/-- Take a token, whatever comes after it. -/
def consume (t : Token) (s : Step k ts α) : Step 1 (t :: ts) α :=
  ⟨s.result, s.rest, s.suffix.trans (List.suffix_cons t ts), fun _ _ => by
    have := s.suffix.length_le
    simp only [List.length_cons]
    omega⟩

/-- Forget how many tokens success takes. -/
def loosen (s : Step k ts α) : Step 0 ts α :=
  ⟨s.result, s.rest, s.suffix, fun _ _ => s.suffix.length_le⟩

/-- Apply a function to the result. -/
def map (f : α → β) (s : Step k ts α) : Step k ts β :=
  ⟨s.result.map f, s.rest, s.suffix, fun b h => by
    match hr : s.result with
    | .ok a => exact s.progress a hr
    | .error e => rw [hr] at h; exact nomatch h⟩

/-- Go on from where a step stopped, if it succeeded. -/
def andThen (s : Step k ts α)
    (f : α → (us : List Token) → us.length + k ≤ ts.length → Step j us β) : Step k ts β :=
  match s with
  | ⟨.ok a, us, hs, hp⟩ =>
    let next := f a us (hp a rfl)
    ⟨next.result, next.rest, next.suffix.trans hs, fun _ _ => by
      have := next.suffix.length_le
      have := hp a rfl
      omega⟩
  | ⟨.error e, us, hs, _⟩ => ⟨.error e, us, hs, fun _ h => nomatch h⟩

/-- What a step gives, without the facts about it. -/
def run (s : Step k ts α) : Except Failure α × List Token := (s.result, s.rest)

@[simp] theorem run_done (a : α) : (done a : Step 0 ts α).run = (.ok a, ts) := rfl

@[simp] theorem run_fail (e : Failure) : (fail e : Step k ts α).run = (.error e, ts) := rfl

@[simp] theorem run_ofExcept (r : Except Failure α) : (ofExcept r : Step 0 ts α).run = (r, ts) :=
  rfl

@[simp] theorem run_consume (t : Token) (s : Step k ts α) : (consume t s).run = s.run := rfl

@[simp] theorem run_loosen (s : Step k ts α) : s.loosen.run = s.run := rfl

@[simp] theorem run_map (f : α → β) (s : Step k ts α) :
    (s.map f).run = (s.run.1.map f, s.run.2) := rfl

/-- After a step that succeeds, the next one runs on the tokens that are left. -/
theorem run_andThen_of_ok {s : Step k ts α} {a : α} {us : List Token} (hs : s.run = (.ok a, us))
    (f : α → (us : List Token) → us.length + k ≤ ts.length → Step j us β) :
    ∃ h, (s.andThen f).run = (f a us h).run := by
  obtain ⟨result, rest, hsuffix, hprogress⟩ := s
  obtain ⟨rfl, rfl⟩ := Prod.mk.inj hs
  exact ⟨hprogress a rfl, rfl⟩

/-- After a step that fails, nothing else runs. -/
theorem run_andThen_of_error {s : Step k ts α} {e : Failure} {us : List Token}
    (hs : s.run = (.error e, us))
    (f : α → (us : List Token) → us.length + k ≤ ts.length → Step j us β) :
    (s.andThen f).run = (.error e, us) := by
  obtain ⟨result, rest, hsuffix, hprogress⟩ := s
  obtain ⟨rfl, rfl⟩ := Prod.mk.inj hs
  rfl

/-- What a step goes on with matters only at tails of its tokens. -/
theorem andThen_congr {s : Step k ts α}
    {f g : α → (us : List Token) → us.length + k ≤ ts.length → Step j us β}
    (h : ∀ a us hle, us <:+ ts → f a us hle = g a us hle) : s.andThen f = s.andThen g := by
  obtain ⟨result, rest, hsuffix, hprogress⟩ := s
  cases result with
  | ok a => simp only [andThen, h a rest (hprogress a rfl) hsuffix]
  | error e => rfl

end Step

/-- Take the next token, which has to be of the given kind and, if one is
given, have the given text. A token that is not the expected one is taken too;
at the end of the input `endLine` is the line of the missing token. -/
def expect (endLine : Nat) (kind : TokenKind) (text : Option String) :
    (ts : List Token) → Step 1 ts Token
  | [] => .fail (.parse endLine (.expected kind text (Token.eof endLine)))
  | t :: _ =>
    .consume t
      (if t.kind = kind ∧ text.all (· = t.text) then .done t
      else .fail (.parse t.line (.expected kind text t)))

/-- The next token, or the end of the input on `endLine`. -/
def peek (endLine : Nat) (ts : List Token) : Token := ts.headD (Token.eof endLine)

end Offside.Grammar
