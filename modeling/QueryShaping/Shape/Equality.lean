import QueryShaping.Shape.Basic

/-!
Equality of shapes is decidable.
-/

namespace QueryShaping.Shape

mutual
def same : Shape → Shape → Bool
  | construct t a, construct t' a' => t = t' && sameArgs a a'
  | memberInit t a f, memberInit t' a' f' => t = t' && sameArgs a a' && sameFields f f'
  | entity t b, entity t' b' => t = t' && b = b'
  | attach e n v, attach e' n' v' => same e e' && n = n' && same v v'
  | parameter p, parameter p' => p = p'
  | group p, group p' => p = p'
  | constant v d, constant v' d' => v = v' && d = d'
  | column t n d, column t' n' d' => t = t' && n = n' && d = d'
  | binary l o r d, binary l' o' r' d' => same l l' && o = o' && same r r' && d = d'
  | call f a d, call f' a' d' => f = f' && sameAll a a' && d = d'
  | reference r, reference r' => r = r'
  | lookup p, lookup p' => p = p'
  | _, _ => false
termination_by structural x => x
def sameArgs : Args Shape → Args Shape → Bool
  | .positional a, .positional b => sameAll a b
  | .named a, .named b => sameFields a b
  | _, _ => false
termination_by structural x => x
def sameAll : List Shape → List Shape → Bool
  | [], [] => true
  | a :: as, b :: bs => same a b && sameAll as bs
  | _, _ => false
termination_by structural x => x
def sameFields : List (Member × Shape) → List (Member × Shape) → Bool
  | [], [] => true
  | (m, a) :: as, (n, b) :: bs => m = n && same a b && sameFields as bs
  | _, _ => false
termination_by structural x => x
end

mutual
theorem same_iff : ∀ a b : Shape, same a b = true ↔ a = b
  | construct t a, b => by cases b <;> simp [same, sameArgs_iff a]
  | memberInit t a f, b => by
    cases b <;> simp [same, sameArgs_iff a, sameFields_iff f, and_assoc]
  | entity .., b => by cases b <;> simp [same]
  | attach e n v, b => by cases b <;> simp [same, same_iff e, same_iff v, and_assoc]
  | parameter _, b => by cases b <;> simp [same]
  | group _, b => by cases b <;> simp [same]
  | constant .., b => by cases b <;> simp [same]
  | column .., b => by cases b <;> simp [same, and_assoc]
  | binary l o r d, b => by cases b <;> simp [same, same_iff l, same_iff r, and_assoc]
  | call f a d, b => by cases b <;> simp [same, sameAll_iff a, and_assoc]
  | reference _, b => by cases b <;> simp [same]
  | lookup _, b => by cases b <;> simp [same]
theorem sameArgs_iff : ∀ a b : Args Shape, sameArgs a b = true ↔ a = b
  | .positional a, b => by cases b <;> simp [sameArgs, sameAll_iff a]
  | .named a, b => by cases b <;> simp [sameArgs, sameFields_iff a]
theorem sameAll_iff : ∀ as bs : List Shape, sameAll as bs = true ↔ as = bs
  | [], bs => by cases bs <;> simp [sameAll]
  | a :: as, bs => by cases bs <;> simp [sameAll, same_iff a, sameAll_iff as]
theorem sameFields_iff : ∀ as bs : List (Member × Shape), sameFields as bs = true ↔ as = bs
  | [], bs => by cases bs <;> simp [sameFields]
  | (m, a) :: as, [] => by simp [sameFields]
  | (m, a) :: as, (n, b) :: bs => by simp [sameFields, same_iff a, sameFields_iff as]
end

instance : DecidableEq Shape := fun a b => decidable_of_iff _ (same_iff a b)

end QueryShaping.Shape
