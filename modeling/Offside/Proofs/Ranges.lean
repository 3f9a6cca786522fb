import Mathlib.Tactic.Ring
import Offside.Proofs.JavaScript.Counting
import Offside.Proofs.Steps

/-!
# Offside.Proofs.Ranges

Loops over a range of integers. The values of a range are `start + k * step` for the
numbers `k` from 0 on, as long as they are before `stop` (`getElem?_rangeValues`).

A loop over `range(stop)`, `range(start, stop)` or `range(start, stop, step)` becomes a
counting loop. If the arguments are integers, each perhaps with a minus, the step is
not zero and the target is no reserved word, **the counting loop ends, and its variable
has the values of the range in their order**, whatever else the body does
(`runs_rangeValues`).
-/

namespace Offside

/-! ### Ranges -/

/-- A range with the given step has not yet come to `stop`. -/
def isBefore (stop step v : Int) : Bool := if 0 < step then v < stop else stop < v

/-- The number of values of a range: the distance divided by the step, rounded up. -/
def rangeLength (start stop step : Int) : Nat :=
  if 0 < step then ((stop - start + step - 1) / step).toNat
  else ((start - stop - step - 1) / -step).toNat

/-- The values of a range. -/
def rangeValues (start stop step : Int) : List Int :=
  (List.range (rangeLength start stop step)).map fun k : Nat => start + k * step

variable {start stop step : Int}

theorem lt_rangeLength_iff (hstep : step ≠ 0) (k : Nat) :
    k < rangeLength start stop step ↔ isBefore stop step (start + k * step) = true := by
  unfold rangeLength isBefore
  -- The quotient is at least `k + 1` exactly if that many steps fit into the distance.
  split
  · rename_i hpos
    have hdiv := Int.le_ediv_iff_mul_le (a := (k + 1 : Int)) (b := stop - start + step - 1) hpos
    rw [add_mul, one_mul] at hdiv
    rw [decide_eq_true_eq]
    omega
  · have hneg : 0 < -step := by omega
    have hdiv := Int.le_ediv_iff_mul_le (a := (k + 1 : Int)) (b := start - stop - step - 1) hneg
    rw [add_mul, one_mul, mul_neg] at hdiv
    rw [decide_eq_true_eq]
    omega

/-- The values of a range are `start + k * step` as long as they are before `stop`. -/
theorem getElem?_rangeValues (hstep : step ≠ 0) (k : Nat) :
    (rangeValues start stop step)[k]? =
      if isBefore stop step (start + k * step) then some (start + k * step) else none := by
  rw [rangeValues, List.getElem?_map]
  split
  · rename_i h
    rw [List.getElem?_range ((lt_rangeLength_iff hstep k).2 h), Option.map_some]
  · rename_i h
    have hlength : ¬ k < rangeLength start stop step := fun hk =>
      h ((lt_rangeLength_iff hstep k).1 hk)
    rw [List.getElem?_eq_none (by simpa using hlength), Option.map_none]

theorem rangeValues_of_isBefore (hstep : step ≠ 0) (h : isBefore stop step start = true) :
    rangeValues start stop step = start :: rangeValues (start + step) stop step := by
  refine List.ext_getElem? fun k => ?_
  cases k with
  | zero => simp [getElem?_rangeValues hstep, h]
  | succ k =>
      have hshift : start + ((k + 1 : Nat) : Int) * step = start + step + k * step := by
        push_cast
        ring
      rw [List.getElem?_cons_succ, getElem?_rangeValues hstep, getElem?_rangeValues hstep, hshift]

theorem rangeValues_of_not_isBefore (hstep : step ≠ 0) (h : isBefore stop step start = false) :
    rangeValues start stop step = [] := by
  have hlength : ¬ 0 < rangeLength start stop step := by simp [lt_rangeLength_iff hstep, h]
  rw [rangeValues, Nat.eq_zero_of_not_pos hlength]
  rfl

/-! ### Counting loops -/

namespace Target

/-- A tree is an integer, whatever the variables are. -/
def Expr.IsConstant (t : Expr) (v : Int) : Prop := ∀ env, t.value? env = some v

namespace Counting

variable {σ : Type} {loop : Counting} {target : String}
  {body : (String → Int) × σ → (String → Int) × σ}

/-- A loop goes on from the value of `target` by `step` as long as it is before `stop`. -/
structure CountsBy (loop : Counting) (target : String) (stop step : Int) : Prop where
  ne_zero : step ≠ 0
  tested : loop.test.name = target
  updated : loop.update.name = target
  descends : loop.test.descends = decide (step < 0)
  stop : loop.test.operand.IsConstant stop
  step : loop.update.operand.IsConstant (if loop.update.descends then -step else step)

theorem CountsBy.test? (h : loop.CountsBy target stop step) (env : String → Int) :
    loop.test? env = some (isBefore stop step (env target)) := by
  have hne := h.ne_zero
  rw [Counting.test?, h.stop env, Option.map_some, h.descends, h.tested, isBefore]
  by_cases hstep : step < 0
  · rw [if_pos (by simpa using hstep), if_neg (by omega)]
  · rw [if_neg (by simpa using hstep), if_pos (by omega)]

theorem CountsBy.advance? (h : loop.CountsBy target stop step) (env : String → Int) :
    loop.advance? env = some (Function.update env target (env target + step)) := by
  rw [Counting.advance?, h.step env, Option.map_some, h.updated]
  cases loop.update.descends with
  | true => simp
  | false => simp

/-- The rounds that are left are those of the range from the value of the variable on. -/
theorem CountsBy.rounds (h : loop.CountsBy target stop step)
    (hbody : ∀ s, (body s).1 target = s.1 target) (s : (String → Int) × σ) {v : Int}
    (hv : s.1 target = v) :
    ∃ final, loop.Rounds target body s (rangeValues v stop step) final := by
  -- By induction on the values that are left; the state is another one in each round.
  induction hvs : rangeValues v stop step generalizing s v with
  | nil =>
      cases hbefore : isBefore stop step v with
      | false => exact ⟨s, .done (by rw [h.test?, hv, hbefore])⟩
      | true =>
          rw [rangeValues_of_isBefore h.ne_zero hbefore] at hvs
          cases hvs
  | cons w vs ih =>
      cases hbefore : isBefore stop step v with
      | false =>
          rw [rangeValues_of_not_isBefore h.ne_zero hbefore] at hvs
          cases hvs
      | true =>
          rw [rangeValues_of_isBefore h.ne_zero hbefore] at hvs
          obtain ⟨rfl, hrest⟩ := List.cons.inj hvs
          have hadvance := h.advance? (body s).1
          rw [hbody s, hv] at hadvance
          obtain ⟨final, hfinal⟩ := ih (Function.update (body s).1 target (v + step), (body s).2)
            (Function.update_self ..) hrest
          have htest : loop.test? s.1 = some true := by rw [h.test?, hv, hbefore]
          rw [← hv]
          exact ⟨final, .round htest hadvance hfinal⟩

end Counting

/-- A header that was written for counting from `start` to `stop` runs through the range. -/
theorem LoopHeader.runs_counted {σ : Type} {target : String}
    (htarget : Lexeme.isName target.toList = true)
    (hfree : reservedWords.contains target = false) {first last amount : Expr} {descending : Bool}
    (hfirst : first.IsOperand) (hlast : last.IsOperand) (hamount : amount.IsOperand)
    (hstart : first.IsConstant start) (hstop : last.IsConstant stop)
    (hstep : amount.IsConstant (if descending then -step else step)) (hne : step ≠ 0)
    (hdescending : descending = decide (step < 0))
    {body : (String → Int) × σ → (String → Int) × σ}
    (hbody : ∀ s, (body s).1 target = s.1 target) (s : (String → Int) × σ) :
    ∃ final, Counting.Runs (counted (.name target) first last descending amount.render).render
      target body s (rangeValues start stop step) final := by
  have hread := Counting.read?_render htarget hfree hfirst hlast hamount descending
  have hcounts : Counting.CountsBy ⟨⟨target, false, first⟩, ⟨target, descending, last⟩,
      ⟨target, descending, amount⟩⟩ target stop step :=
    ⟨hne, rfl, rfl, hdescending, hstop, hstep⟩
  obtain ⟨final, hrounds⟩ := hcounts.rounds hbody (Function.update s.1 target start, s.2)
    (Function.update_self ..)
  refine ⟨final, _, _, hread, ?_, hrounds⟩
  rw [Counting.begin?, hstart s.1, Option.map_some]

/-! ### Integers in code -/

/-- A tree is an integer, perhaps with a minus. -/
inductive Expr.IsInteger : Expr → Int → Prop
  | number {m n : Nat} {k : Int} (hcanonical : Binary64.IsCanonical m k)
    (hvalue : (Binary64.finite false m k).toInt? = some (n : Int)) :
    IsInteger (.number (.finite false m k)) n
  | minus {m n : Nat} {k : Int} (hcanonical : Binary64.IsCanonical m k)
    (hvalue : (Binary64.finite false m k).toInt? = some (n : Int)) :
    IsInteger (.unary .neg (.number (.finite false m k))) (-n)

variable {t : Expr} {v : Int}

theorem Expr.startsWithSign_number {m : Nat} {k : Int} (h : Binary64.IsCanonical m k) :
    (number (.finite false m k)).startsWithSign = false := by
  obtain ⟨whole, part, hliteral, -⟩ := Binary64.exists_literal_toCode h
  obtain ⟨c, cs, htext, hc⟩ := hliteral.exists_cons
  have hminus : c ≠ '-' := Offside.Lexeme.ne_of_class hc (by decide)
  have hplus : c ≠ '+' := Offside.Lexeme.ne_of_class hc (by decide)
  simp [startsWithSign, render, htext, hminus, hplus]

theorem Expr.IsInteger.isOperand (h : t.IsInteger v) : t.IsOperand := by
  cases h with
  | number hcanonical => exact ⟨⟨_, _, rfl, hcanonical⟩, isRead_of_isOrdered _ rfl, Nat.zero_le 2⟩
  | minus hcanonical =>
      refine ⟨⟨.inr (startsWithSign_number hcanonical), _, _, rfl, hcanonical⟩, ?_, Nat.zero_le 2⟩
      exact isRead_of_isOrdered _ rfl

theorem Expr.IsInteger.isConstant (h : t.IsInteger v) : t.IsConstant v := by
  intro env
  cases h with
  | number _ hvalue => exact hvalue
  | minus _ hvalue =>
      rw [value?, value?, hvalue]
      rfl

/-- An integer that is not zero is a step up or down, by an amount that is written without
its minus. -/
theorem Expr.IsInteger.exists_countedHeader (h : t.IsInteger v) (hv : v ≠ 0)
    (target start stop : Expr) :
    ∃ (amount : Expr) (descending : Bool), countedHeader target start stop t =
        .counted target start stop descending amount.render ∧
      descending = decide (v < 0) ∧
      amount.IsInteger (if descending then -v else v) := by
  have hspelled := h.isOperand.spelled
  cases h with
  | @number m n k hcanonical hvalue =>
      refine ⟨.number (.finite false m k), false, ?_, by simp, .number hcanonical hvalue⟩
      rw [countedHeader_of_not_minus _ _ _ (by simp [lexemes]) rfl hspelled]
      simp [lexemes, Lexeme.code, render]
  | @minus m n k hcanonical hvalue =>
      refine ⟨.number (.finite false m k), true, ?_, ?_, ?_⟩
      · rw [countedHeader_of_minus _ _ _ (.neg _) rfl hspelled]
        simp [dropSign, lexemes, Lexeme.code, render]
      · simp
        omega
      · rw [if_pos rfl, neg_neg]
        exact .number hcanonical hvalue

theorem Expr.isInteger_ofNat {n : Nat}
    (h : (Binary64.ofDecimal false ⟨n, 0⟩).toInt? = some (n : Int)) : (ofNat n).IsInteger n := by
  rw [ofNat]
  cases hvalue : Binary64.ofDecimal false ⟨n, 0⟩ with
  | finite negative m k =>
      obtain ⟨rfl, hcanonical⟩ := Binary64.isCanonical_of_ofDecimal hvalue
      exact .number hcanonical (hvalue ▸ h)
  | infinite | nan => cases hvalue ▸ h

end Target

/-! ### Integers in a source -/

/-- A literal is the number that its digits stand for, without rounding. -/
inductive Expr.IsWhole : Expr → Nat → Prop
  | digits {digits : List Char} {value : Binary64} (hne : digits ≠ [])
    (hdigits : ∀ c ∈ digits, c.isDigit = true)
    (hvalue : Numeral.read? (String.ofList digits) = some value)
    (hexact : value.toInt? = some (Numeral.ofDigits digits : Int)) :
    IsWhole (.literal (.number value)) (Numeral.ofDigits digits)

/-- An expression is an integer, perhaps with a minus. -/
inductive Expr.IsInteger : Expr → Int → Prop
  | whole {e : Expr} {n : Nat} (h : e.IsWhole n) : IsInteger e n
  | minus {e : Expr} {n : Nat} (h : e.IsWhole n) : IsInteger (.unary .neg e) (-n)

/-- The arguments of a range. It starts at 0 and goes on by 1 if they do not say
otherwise. -/
inductive IsRange : List Expr → Int → Int → Int → Prop
  | stop {b : Expr} {stop : Int} (hstop : b.IsInteger stop) : IsRange [b] 0 stop 1
  | start {a b : Expr} {start stop : Int} (hstart : a.IsInteger start) (hstop : b.IsInteger stop) :
    IsRange [a, b] start stop 1
  | step {a b c : Expr} {start stop step : Int} (hstart : a.IsInteger start)
    (hstop : b.IsInteger stop) (hstep : c.IsInteger step) : IsRange [a, b, c] start stop step

theorem Expr.IsWhole.exists_number {e : Expr} {n : Nat} (h : e.IsWhole n) :
    ∃ m k, e = .literal (.number (.finite false m k)) ∧ Binary64.IsCanonical m k ∧
      (Binary64.finite false m k).toInt? = some (n : Int) := by
  cases h with
  | @digits digits value hne hdigits hvalue hexact =>
      obtain ⟨c, cs, rfl⟩ := List.exists_cons_of_ne_nil hne
      have hunsigned := Numeral.isUnsigned_of_read? String.toList_ofList
        (hdigits c List.mem_cons_self) hvalue
      cases value with
      | finite negative m k =>
          obtain ⟨rfl, hcanonical⟩ := hunsigned
          exact ⟨m, k, rfl, hcanonical, hexact⟩
      | infinite | nan => cases hexact

theorem Expr.IsInteger.lower {e : Expr} {v : Int} (h : e.IsInteger v) : e.lower.IsInteger v := by
  cases h with
  | whole h =>
      obtain ⟨m, k, rfl, hcanonical, hvalue⟩ := h.exists_number
      exact .number hcanonical hvalue
  | minus h =>
      obtain ⟨m, k, rfl, hcanonical, hvalue⟩ := h.exists_number
      have hsign := Target.Expr.startsWithSign_number hcanonical
      have hlower : (unary .neg (.literal (.number (.finite false m k)))).lower =
          .unary .neg (.number (.finite false m k)) := by
        rw [Expr.lower, Expr.lower, Literal.lower, lowerSign, hsign]
        rfl
      rw [hlower]
      exact .minus hcanonical hvalue

/-- A loop over a range becomes one that counts from `start` to `stop` by `step`. -/
theorem IsRange.exists_loopHeader {args : List Expr} (h : IsRange args start stop step)
    (target : Expr) :
    ∃ first last change : Target.Expr, loopHeader target (.call (.ident "range") args) =
        .ok (countedHeader target.lower first last change) ∧
      first.IsInteger start ∧ last.IsInteger stop ∧ change.IsInteger step := by
  have hzero : (Target.Expr.ofNat 0).IsInteger 0 := Target.Expr.isInteger_ofNat (by decide +kernel)
  have hone : (Target.Expr.ofNat 1).IsInteger 1 := Target.Expr.isInteger_ofNat (by decide +kernel)
  cases h with
  | stop hstop =>
      exact ⟨_, _, _, rfl, hzero, hstop.lower,
        hone⟩
  | start hstart hstop =>
      exact ⟨_, _, _, rfl, hstart.lower, hstop.lower, hone⟩
  | step hstart hstop hstep => exact ⟨_, _, _, rfl, hstart.lower, hstop.lower, hstep.lower⟩

open Target.Counting (Runs)

/-- The loop that is written for a range ends, and its variable has the values of the
range in their order, if the body leaves the variable as it is. A target is written as
it is, so it must be no reserved word of JavaScript. -/
theorem runs_rangeValues {target : String} (htarget : Lexeme.isWord target.toList = true)
    (hfree : Target.reservedWords.contains target = false) {args : List Expr} (hargs : IsRange args start stop step) (hstep : step ≠ 0) :
    ∃ header, loopHeader (.ident target) (.call (.ident "range") args) = .ok header ∧
      ∀ {σ : Type} (body : (String → Int) × σ → (String → Int) × σ) (s : (String → Int) × σ),
        (∀ s, (body s).1 target = s.1 target) →
        ∃ final, Runs header.render target body s (rangeValues start stop step) final ∧
          ∀ vs final', Runs header.render target body s vs final' →
            vs = rangeValues start stop step ∧ final' = final := by
  obtain ⟨first, last, change, hheader, hfirst, hlast, hchange⟩ :=
    hargs.exists_loopHeader (.ident target)
  obtain ⟨amount, descending, hcounted, hdescending, hamount⟩ :=
    hchange.exists_countedHeader hstep (.name target) first last
  refine ⟨_, hheader, fun body s hbody => ?_⟩
  rw [Expr.lower, hcounted]
  obtain ⟨final, hruns⟩ := Target.LoopHeader.runs_counted (isName_of_isWord htarget) hfree
    hfirst.isOperand hlast.isOperand hamount.isOperand hfirst.isConstant hlast.isConstant
    hamount.isConstant hstep hdescending hbody s
  exact ⟨final, hruns, fun vs final' h => h.unique hruns⟩

/-- A body that adds the value of `i` to `total`, and keeps a list of these values. -/
def collect (s : (String → Int) × List Int) : (String → Int) × List Int :=
  (Function.update s.1 "total" (s.1 "total" + s.1 "i"), s.2 ++ [s.1 "i"])

/-- The arguments of `range(10, -3, -4)`. -/
def fromTen : List Expr := [.ofNat 10, .unary .neg (.ofNat 3), .unary .neg (.ofNat 4)]

theorem Expr.isWhole_three : (Expr.ofNat 3).IsWhole 3 :=
  .digits (List.cons_ne_nil '3' []) (List.all_eq_true.1 (by decide)) (by decide +kernel)
    (by decide +kernel)

theorem runs_fromTen :
    IsRange fromTen 10 (-3) (-4) ∧
    (loopHeader (.ident "i") (.call (.ident "range") fromTen)).map (·.render) =
      .ok "for (var i = 10; i > -3; i -= 4)" ∧
    ∃ final, Runs "for (var i = 10; i > -3; i -= 4)" "i" collect (fun _ => 5, [])
      [10, 6, 2, -2] final := by
  have hten : (Expr.ofNat 10).IsWhole 10 :=
    .digits (List.cons_ne_nil '1' ['0']) (List.all_eq_true.1 (by decide)) (by decide +kernel)
      (by decide +kernel)
  have hfour : (Expr.ofNat 4).IsWhole 4 :=
    .digits (List.cons_ne_nil '4' []) (List.all_eq_true.1 (by decide)) (by decide +kernel)
      (by decide +kernel)
  have hrange : IsRange fromTen 10 (-3) (-4) := .step (.whole hten) (.minus Expr.isWhole_three)
    (.minus hfour)
  have hcode : (loopHeader (.ident "i") (.call (.ident "range") fromTen)).map (·.render) =
      .ok "for (var i = 10; i > -3; i -= 4)" := by decide +kernel
  have hvalues : rangeValues 10 (-3) (-4) = [10, 6, 2, -2] := by decide
  obtain ⟨header, hheader, hruns⟩ :=
    runs_rangeValues (by decide : Lexeme.isWord "i".toList = true) (by decide) hrange (by decide)
  have hrender : header.render = "for (var i = 10; i > -3; i -= 4)" := by
    rw [hheader] at hcode
    exact Except.ok.inj hcode
  have hbody (s : (String → Int) × List Int) : (collect s).1 "i" = s.1 "i" := by
    simp [collect]
  obtain ⟨final, hfinal, -⟩ := hruns collect (fun _ => 5, []) hbody
  rw [hrender, hvalues] at hfinal
  exact ⟨hrange, hcode, final, hfinal⟩

/-- A loop over `range(3)` with the target `new` does not run, since its header declares a
reserved word. -/
theorem not_runs_new :
    IsRange [.ofNat 3] 0 3 1 ∧ Lexeme.isWord "new".toList = true ∧
    (loopHeader (.ident "new") (.call (.ident "range") [.ofNat 3])).map (·.render) =
      .ok "for (var new = 0; new < 3; new += 1)" ∧
    ¬ ∃ final, Runs "for (var new = 0; new < 3; new += 1)" "new" id (fun _ => 0, ())
      (rangeValues 0 3 1) final := by
  have hread : (Target.Counting.read? "for (var new = 0; new < 3; new += 1)").isNone = true := by
    decide +kernel
  refine ⟨.stop (.whole Expr.isWhole_three), by decide, by decide +kernel, ?_⟩
  rintro ⟨final, loop, env, hloop, -⟩
  rw [Option.isNone_iff_eq_none.1 hread] at hloop
  cases hloop

end Offside
