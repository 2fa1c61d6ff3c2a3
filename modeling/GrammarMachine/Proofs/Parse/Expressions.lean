import GrammarMachine.Lexer.Basic
import GrammarMachine.Samples.Calculator
import Mathlib.Data.Nat.Digits.Defs

/-!
Arithmetic expressions, and the tokens that spell them: products bind tighter than sums, both group
to the left, and parentheses group what they enclose. The tokens of an expression determine it. A
sign that joins two phrases stands outside of all parentheses, while such a sign stands inside of
some in the phrase behind it, so there is one place only at which to take the tokens apart.
-/

namespace GrammarMachine.Samples.Calculator

inductive Expr where
  | number (text : String)
  | sum (left right : Expr)
  | product (left right : Expr)
deriving DecidableEq, Repr

namespace Expr

/-- The integer that an expression stands for. -/
def value : Expr → Int
  | number text => (Nat.ofDigits 10 (text.toList.reverse.map fun c => c.toNat - '0'.toNat) : Nat)
  | sum left right => left.value + right.value
  | product left right => left.value * right.value

/-- Every number in the expression, and every sum and product on the way, is one of 64 bits. -/
def Fits : Expr → Prop
  | number text => -2 ^ 63 ≤ (number text).value ∧ (number text).value < 2 ^ 63
  | sum left right => left.Fits ∧ right.Fits ∧
      -2 ^ 63 ≤ left.value + right.value ∧ left.value + right.value < 2 ^ 63
  | product left right => left.Fits ∧ right.Fits ∧
      -2 ^ 63 ≤ left.value * right.value ∧ left.value * right.value < 2 ^ 63

/-- The functions to call, operands first. -/
def calls : Expr → List UInt32
  | number _ => [evaluate]
  | sum left right => left.calls ++ right.calls ++ [add]
  | product left right => left.calls ++ right.calls ++ [multiply]

instance decidableFits : (A : Expr) → Decidable A.Fits
  | number text =>
    inferInstanceAs (Decidable (-2 ^ 63 ≤ (number text).value ∧ (number text).value < 2 ^ 63))
  | sum left right =>
    have := decidableFits left
    have := decidableFits right
    inferInstanceAs (Decidable (left.Fits ∧ right.Fits ∧
      -2 ^ 63 ≤ left.value + right.value ∧ left.value + right.value < 2 ^ 63))
  | product left right =>
    have := decidableFits left
    have := decidableFits right
    inferInstanceAs (Decidable (left.Fits ∧ right.Fits ∧
      -2 ^ 63 ≤ left.value * right.value ∧ left.value * right.value < 2 ^ 63))

end Expr

/-- What an expression can be part of. -/
inductive Phrase where
  | expr
  | term
  | factor
deriving DecidableEq, Repr

/-- The tokens spell the expression, as a phrase of this kind. -/
inductive Spells : Phrase → List Token → Expr → Prop
  | sum {u v : List Token} {t : Token} {A B : Expr} (left : Spells .expr u A)
      (sign : t.id = plus) (right : Spells .term v B) : Spells .expr (u ++ t :: v) (.sum A B)
  | term {u : List Token} {A : Expr} (term : Spells .term u A) : Spells .expr u A
  | product {u v : List Token} {t : Token} {A B : Expr} (left : Spells .term u A)
      (sign : t.id = star) (right : Spells .factor v B) :
      Spells .term (u ++ t :: v) (.product A B)
  | factor {u : List Token} {A : Expr} (factor : Spells .factor u A) : Spells .term u A
  | group {u : List Token} {opening closing : Token} {A : Expr} (opens : opening.id = openParen)
      (inside : Spells .expr u A) (closes : closing.id = closeParen) :
      Spells .factor (opening :: (u ++ [closing])) A
  | number {t : Token} {text : String} (digits : t.id = number) (carries : t.text = some text) :
      Spells .factor [t] (.number text)

section Nesting

/-- How a token changes the level of parentheses. -/
def rise (t : Token) : Int :=
  if t.id = openParen then 1 else if t.id = closeParen then -1 else 0

/-- How many parentheses are open behind these tokens. -/
def level (ts : List Token) : Int := (ts.map rise).sum

@[simp] theorem level_nil : level [] = 0 := rfl

@[simp] theorem level_cons (t : Token) (ts : List Token) : level (t :: ts) = rise t + level ts := by
  simp [level]

@[simp] theorem level_append (u v : List Token) : level (u ++ v) = level u + level v := by
  simp [level]

/-- Parentheses are balanced, and tokens of the class `f` stand between some. -/
structure Nested (f : Token → Bool) (ts : List Token) : Prop where
  closed : level ts = 0
  within : ∀ {p t s}, ts = p ++ t :: s → 0 ≤ level p ∧ (f t = true → 0 < level p)

variable {f f' : Token → Bool} {u v u' v' : List Token} {t t' : Token}

theorem Nested.mono (nested : Nested f u) (fewer : ∀ t, f' t = true → f t = true) : Nested f' u :=
  ⟨nested.closed, fun split => ⟨(nested.within split).1, fun member =>
    (nested.within split).2 (fewer _ member)⟩⟩

theorem Nested.single (flat : rise t = 0) (other : f t = false) : Nested f [t] := by
  refine ⟨by simp [flat], ?_⟩
  intro p x s split
  cases p with
  | nil =>
    cases split
    simp [other]
  | cons y p => simp at split

theorem Nested.append (left : Nested f u) (right : Nested f v) : Nested f (u ++ v) := by
  refine ⟨by rw [level_append, left.closed, right.closed, Int.add_zero], ?_⟩
  intro p x s split
  rcases List.append_eq_append_iff.1 split with ⟨a, rfl, behind⟩ | ⟨a, rfl, behind⟩
  · rw [level_append, left.closed, Int.zero_add]
    exact right.within behind
  · cases a with
    | nil =>
      have here := right.within (p := []) behind.symm
      have closed := left.closed
      rw [List.append_nil] at closed
      rwa [closed]
    | cons y a =>
      cases behind
      exact left.within rfl

/-- Between parentheses everything stands between some. -/
theorem Nested.group {opening closing : Token} (opens : opening.id = openParen)
    (inside : Nested f' u) (closes : closing.id = closeParen) (other : f opening = false) :
    Nested f (opening :: (u ++ [closing])) := by
  have up : rise opening = 1 := by simp [rise, opens]
  have down : rise closing = -1 := by
    rw [rise, closes, if_neg (by decide), if_pos rfl]
  refine ⟨by simp [up, down, inside.closed], ?_⟩
  intro p x s split
  cases p with
  | nil =>
    cases split
    simp [other]
  | cons y p =>
    obtain ⟨rfl, rest⟩ := List.cons.inj split
    have above : 0 ≤ level p := by
      rcases List.append_eq_append_iff.1 rest with ⟨a, rfl, behind⟩ | ⟨a, rfl, behind⟩
      · obtain ⟨rfl, _⟩ | ⟨_, nothing⟩ := List.singleton_eq_append_iff.1 behind
        · simp [inside.closed]
        · cases nothing
      · cases a with
        | nil =>
          have closed := inside.closed
          rw [List.append_nil] at closed
          exact Int.le_of_eq closed.symm
        | cons z a =>
          cases behind
          exact (inside.within rfl).1
    rw [level_cons, up]
    omega

/-- Where a sign stands outside of all parentheses and signs behind it do not, it is the last one
that does. -/
theorem Nested.unique_split (same : u ++ t :: v = u' ++ t' :: v') (left : level u = 0)
    (left' : level u' = 0) (right : Nested f v) (right' : Nested f v') (sign : f t = true)
    (sign' : f t' = true) (flat : rise t = 0) (flat' : rise t' = 0) :
    u = u' ∧ t = t' ∧ v = v' := by
  rcases List.append_eq_append_iff.1 same with ⟨a, rfl, behind⟩ | ⟨a, rfl, behind⟩
  · cases a with
    | nil =>
      cases behind
      exact ⟨(List.append_nil u).symm, rfl, rfl⟩
    | cons x a =>
      cases behind
      have inner := (right.within rfl).2 sign'
      simp only [level_append, level_cons, left, flat] at left'
      omega
  · cases a with
    | nil =>
      cases behind
      exact ⟨List.append_nil u', rfl, rfl⟩
    | cons x a =>
      cases behind
      have inner := (right'.within rfl).2 sign
      simp only [level_append, level_cons, left', flat'] at left
      omega

end Nesting

/-- The signs that a phrase holds within parentheses only. -/
def Phrase.encloses : Phrase → Token → Bool
  | .expr, _ => false
  | .term, t => t.id == plus
  | .factor, t => t.id == plus || t.id == star

variable {n : Phrase} {ts u v : List Token} {A B : Expr} {t : Token}

theorem Phrase.encloses_factor (t : Token) (member : Phrase.term.encloses t = true) :
    Phrase.factor.encloses t = true :=
  Bool.or_eq_true_iff.2 (.inl member)

theorem rise_plus (sign : t.id = plus) : rise t = 0 := by
  rw [rise, sign, if_neg (by decide), if_neg (by decide)]

theorem rise_star (sign : t.id = star) : rise t = 0 := by
  rw [rise, sign, if_neg (by decide), if_neg (by decide)]

theorem Spells.nested (spells : Spells n ts A) : Nested n.encloses ts := by
  induction spells with
  | @sum u v t A B _ sign _ left right =>
    have joined := (left.append (.single (rise_plus sign) rfl)).append (right.mono nofun)
    rwa [List.append_assoc] at joined
  | term _ ih => exact ih.mono nofun
  | @product u v t A B _ sign _ left right =>
    have outer : Phrase.term.encloses t = false := by
      rw [Phrase.encloses, sign]
      rfl
    have joined := (left.append (.single (rise_star sign) outer)).append
      (right.mono Phrase.encloses_factor)
    rwa [List.append_assoc] at joined
  | factor _ ih => exact ih.mono Phrase.encloses_factor
  | group opens _ closes inside =>
    exact inside.group opens closes (by rw [Phrase.encloses, opens]; rfl)
  | number digits =>
    refine .single ?_ (by rw [Phrase.encloses, digits]; rfl)
    rw [rise, digits, if_neg (by decide), if_neg (by decide)]

/-- A term is no sum. -/
theorem Spells.not_sum (left : Spells .expr u A) (sign : t.id = plus) :
    ¬Spells .term (u ++ t :: v) B := by
  intro term
  have inner := (term.nested.within rfl).2 (by simp [Phrase.encloses, sign])
  rw [left.nested.closed] at inner
  exact Int.lt_irrefl 0 inner

/-- A factor is no product. -/
theorem Spells.not_product (left : Spells .term u A) (sign : t.id = star) :
    ¬Spells .factor (u ++ t :: v) B := by
  intro factor
  have inner := (factor.nested.within rfl).2 (by simp [Phrase.encloses, sign])
  rw [left.nested.closed] at inner
  exact Int.lt_irrefl 0 inner

/-- Tokens spell one expression at most. -/
theorem Spells.unique (first : Spells n ts A) (second : Spells n ts B) : A = B := by
  induction first generalizing B with
  | @sum u v t A₁ A₂ left sign right ihLeft ihRight =>
    generalize whole : u ++ t :: v = ts at second
    cases second with
    | sum left' sign' right' =>
      obtain ⟨rfl, rfl, rfl⟩ := Nested.unique_split whole left.nested.closed left'.nested.closed
        right.nested right'.nested (by simp [Phrase.encloses, sign])
        (by simp [Phrase.encloses, sign']) (rise_plus sign) (rise_plus sign')
      rw [ihLeft left', ihRight right']
    | term other =>
      subst whole
      exact absurd other (left.not_sum sign)
  | @term ts A term ih =>
    cases second with
    | sum left sign right => exact absurd term (left.not_sum sign)
    | term other => exact ih other
  | @product u v t A₁ A₂ left sign right ihLeft ihRight =>
    generalize whole : u ++ t :: v = ts at second
    cases second with
    | product left' sign' right' =>
      obtain ⟨rfl, rfl, rfl⟩ := Nested.unique_split whole left.nested.closed left'.nested.closed
        right.nested right'.nested (by simp [Phrase.encloses, sign])
        (by simp [Phrase.encloses, sign']) (rise_star sign) (rise_star sign')
      rw [ihLeft left', ihRight right']
    | factor other =>
      subst whole
      exact absurd other (left.not_product sign)
  | @factor ts A factor ih =>
    cases second with
    | product left sign right => exact absurd factor (left.not_product sign)
    | factor other => exact ih other
  | @group u opening closing A opens inside closes ih =>
    generalize whole : opening :: (u ++ [closing]) = ts at second
    cases second with
    | group opens' inside' closes' =>
      obtain ⟨_, rest⟩ := List.cons.inj whole
      obtain ⟨rfl, _⟩ := List.append_inj' rest rfl
      exact ih inside'
    | number digits =>
      obtain ⟨rfl, _⟩ := List.cons.inj whole
      cases opens.symm.trans digits
  | @number t text digits carries =>
    generalize whole : [t] = ts at second
    cases second with
    | group opens =>
      obtain ⟨rfl, _⟩ := List.cons.inj whole
      cases opens.symm.trans digits
    | number _ carries' =>
      cases whole
      cases carries.symm.trans carries'
      rfl

end GrammarMachine.Samples.Calculator
