import Offside.Ast

/-!
# Offside.Ast.Equality

Equality of syntax trees can be decided.
-/

namespace Offside

namespace Expr

mutual

/-- Two expressions are the same. -/
def same : Expr → Expr → Bool
  | ident a, ident b => a = b
  | literal a, literal b => a = b
  | fstring q es, fstring r fs => q = r && sameAll es fs
  | binary l o r n, binary l' o' r' n' => same l l' && o = o' && same r r' && n = n'
  | unary o e, unary o' e' => o = o' && same e e'
  | attr e a, attr e' a' => same e e' && a = a'
  | call c es, call c' es' => same c c' && sameAll es es'
  | index t p, index t' p' => same t t' && same p p'
  | list es, list es' => sameAll es es'
  | group e, group e' => same e e'
  | _, _ => false

/-- Two lists of expressions are the same. -/
def sameAll : List Expr → List Expr → Bool
  | [], [] => true
  | e :: es, e' :: es' => same e e' && sameAll es es'
  | _, _ => false

end

mutual

theorem same_iff : (a b : Expr) → (same a b = true ↔ a = b)
  | ident _, b | literal _, b => by cases b <;> simp [same]
  | fstring _ es, b => by cases b <;> simp [same, sameAll_iff es]
  | binary l _ r _, b => by cases b <;> simp [same, same_iff l, same_iff r, and_assoc]
  | unary _ e, b => by cases b <;> simp [same, same_iff e]
  | attr e _, b => by cases b <;> simp [same, same_iff e]
  | call c es, b => by cases b <;> simp [same, same_iff c, sameAll_iff es]
  | index t p, b => by cases b <;> simp [same, same_iff t, same_iff p]
  | list es, b => by cases b <;> simp [same, sameAll_iff es]
  | group e, b => by cases b <;> simp [same, same_iff e]

theorem sameAll_iff : (as bs : List Expr) → (sameAll as bs = true ↔ as = bs)
  | [], bs => by cases bs <;> simp [sameAll]
  | e :: es, bs => by cases bs <;> simp [sameAll, same_iff e, sameAll_iff es]

end

instance : DecidableEq Expr := fun a b => decidable_of_iff _ (same_iff a b)

end Expr

namespace Stmt

mutual

/-- Two statements are the same. -/
def same : Stmt → Stmt → Bool
  | assign t v, assign t' v' => t = t' && v = v'
  | augAssign t o v, augAssign t' o' v' => t = t' && o = o' && v = v'
  | expr e, expr e' => e = e'
  | returnValue e, returnValue e' => e = e'
  | functionDef n ps b, functionDef n' ps' b' => n = n' && ps = ps' && sameBlock b b'
  | ifElse c b a, ifElse c' b' a' => c = c' && sameBlock b b' && sameAlternate a a'
  | whileLoop c b o, whileLoop c' b' o' => c = c' && sameBlock b b' && sameBlock o o'
  | forLoop t i b o, forLoop t' i' b' o' => t = t' && i = i' && sameBlock b b' && sameBlock o o'
  | classDef n b, classDef n' b' => n = n' && sameBlock b b'
  | importModule p, importModule p' => p = p'
  | breakLoop, breakLoop | continueLoop, continueLoop | pass, pass => true
  | _, _ => false

/-- Two rests of conditionals are the same. -/
def sameAlternate : Alternate → Alternate → Bool
  | .none, .none => true
  | .elseIf c b a, .elseIf c' b' a' => c = c' && sameBlock b b' && sameAlternate a a'
  | .otherwise b, .otherwise b' => sameBlock b b'
  | _, _ => false

/-- Two blocks are the same. -/
def sameBlock : List Stmt → List Stmt → Bool
  | [], [] => true
  | s :: ss, s' :: ss' => same s s' && sameBlock ss ss'
  | _, _ => false

end

mutual

theorem same_iff : (a b : Stmt) → (same a b = true ↔ a = b)
  | assign .., b | expr _, b | returnValue _, b | importModule _, b | breakLoop, b
  | continueLoop, b | pass, b => by cases b <;> simp [same]
  | augAssign .., b => by cases b <;> simp [same, and_assoc]
  | functionDef _ _ s, b => by cases b <;> simp [same, sameBlock_iff s, and_assoc]
  | ifElse _ s a, b => by cases b <;> simp [same, sameBlock_iff s, sameAlternate_iff a, and_assoc]
  | whileLoop _ s o, b => by cases b <;> simp [same, sameBlock_iff s, sameBlock_iff o, and_assoc]
  | forLoop _ _ s o, b => by cases b <;> simp [same, sameBlock_iff s, sameBlock_iff o, and_assoc]
  | classDef _ s, b => by cases b <;> simp [same, sameBlock_iff s]

theorem sameAlternate_iff : (a b : Alternate) → (sameAlternate a b = true ↔ a = b)
  | .none, b => by cases b <;> simp [sameAlternate]
  | .elseIf _ s a, b => by
    cases b <;> simp [sameAlternate, sameBlock_iff s, sameAlternate_iff a, and_assoc]
  | .otherwise s, b => by cases b <;> simp [sameAlternate, sameBlock_iff s]

theorem sameBlock_iff : (as bs : List Stmt) → (sameBlock as bs = true ↔ as = bs)
  | [], bs => by cases bs <;> simp [sameBlock]
  | s :: ss, bs => by cases bs <;> simp [sameBlock, same_iff s, sameBlock_iff ss]

end

instance : DecidableEq Stmt := fun a b => decidable_of_iff _ (same_iff a b)

instance : DecidableEq Alternate := fun a b => decidable_of_iff _ (sameAlternate_iff a b)

end Stmt

deriving instance DecidableEq for Program

end Offside
