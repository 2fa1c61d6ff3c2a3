import GrammarMachine.Proofs.Lexer.Turns

/-!
Comments of the calculator leave no trace. A blank with a comment behind it reads like the blank
alone, whatever stands in front of them, an open comment included, and whatever follows: two lexers
in front of the two texts take the same turns, but for those in which the first one alone skips the
comment and the blanks behind it.
-/

namespace GrammarMachine

namespace Samples.Calculator

variable {r y cs cs' : List Char}

section Runs

variable {f : Char → Bool} {x : List Char} {c : Char}

/-- A run within `x` ends there, if it does not reach the character behind `x` or is cut by it. -/
theorem takeWhile_append_cons (cut : f c = false ∨ x.all f = false) (z : List Char) :
    (x ++ c :: z).takeWhile f = x.takeWhile f ∧
      (x ++ c :: z).dropWhile f = x.dropWhile f ++ c :: z := by
  induction x with
  | nil =>
    have outside : f c = false := by simpa using cut
    simp [outside]
  | cons d x ih =>
    cases inside : f d with
    | false => simp [inside]
    | true =>
      have further := ih (by simpa [inside] using cut)
      simp [inside, further]

theorem takeWhile_of_all (all : x.all f = true) (z : List Char) :
    (x ++ z).takeWhile f = x ++ z.takeWhile f ∧ (x ++ z).dropWhile f = z.dropWhile f := by
  rw [List.all_eq_true] at all
  exact ⟨List.takeWhile_append_of_pos all, List.dropWhile_append_of_pos all⟩

end Runs

/-- Blanks up to a blank are matched together with the blanks behind it. -/
theorem munch_blanks {x : List Char} (all : x.all isBlank = true) (z : List Char) :
    munch (x ++ ' ' :: z) =
      some (.token blank, x ++ ' ' :: z.takeWhile isBlank, z.dropWhile isBlank) := by
  have space : isBlank ' ' = true := by decide
  cases x with
  | nil => simp [munch, space]
  | cons c x =>
    rw [List.all_cons, Bool.and_eq_true] at all
    obtain ⟨taken, dropped⟩ := takeWhile_of_all all.2 (' ' :: z)
    rw [List.cons_append, munch, if_pos all.1, taken, dropped]
    simp [space]

/-- In front of a blank, what is matched does not depend on what follows the blank. -/
theorem munch_append {x : List Char} (some : x.all isBlank = false) (z : List Char) :
    munch (x ++ ' ' :: z) = (munch x).map fun m => (m.1, m.2.1, m.2.2 ++ ' ' :: z) := by
  cases x with
  | nil => cases some
  | cons c x =>
    have next : ∀ d, d ≠ ' ' → ((x ++ ' ' :: z).head? = .some d ↔ x.head? = .some d) := by
      intro d other
      cases x with
      | nil => simpa using Ne.symm other
      | cons => rfl
    have behind : ∀ {d}, x.head? = .some d → (x ++ ' ' :: z).tail = x.tail ++ ' ' :: z := by
      intro d here
      cases x with
      | nil => cases here
      | cons => rfl
    rw [List.cons_append, munch, munch]
    simp only [next '/' (by decide), next '*' (by decide)]
    split_ifs with blank digit closes opens
    · rw [List.all_cons, blank, Bool.true_and] at some
      obtain ⟨taken, dropped⟩ := takeWhile_append_cons (c := ' ') (.inr some) z
      rw [taken, dropped]
      rfl
    · obtain ⟨taken, dropped⟩ :=
        takeWhile_append_cons (f := Char.isDigit) (x := x) (c := ' ') (.inl (by decide)) z
      rw [taken, dropped]
      rfl
    · rw [behind closes.2]
      rfl
    · rw [behind opens.2]
      rfl
    · rw [Option.map_map]
      rfl

theorem skip_close (n : Nat) (rest : List Char) :
    skip n ('*' :: '/' :: rest) = if n ≤ 1 then some rest else skip (n - 1) rest := by
  rw [skip, if_neg (by decide), if_pos ⟨rfl, rfl⟩]
  rfl

theorem skip_open (n : Nat) (rest : List Char) :
    skip n ('/' :: '*' :: rest) = skip (n + 1) rest := by
  rw [skip, if_neg (by decide), if_neg (by simp), if_pos ⟨rfl, rfl⟩]
  rfl

theorem skip_other {c : Char} (n : Nat) (letter : c ≠ '\x00')
    (closes : ¬(c = '*' ∧ cs.head? = some '/')) (opens : ¬(c = '/' ∧ cs.head? = some '*')) :
    skip n (c :: cs) = skip n cs := by
  rw [skip, if_neg letter, if_neg closes, if_neg opens]

/-- A comment that closes at the end of `r` lowers the nesting by what it is open there. -/
theorem skip_append {k : Nat} (closes : skip k r = some []) (positive : 0 < k) (n : Nat)
    (y : List Char) : skip (n + k) (r ++ y) = if n = 0 then some y else skip n y := by
  fun_induction skip k r generalizing n with
  | case1 => cases closes
  | case2 => cases closes
  | case3 k c cs _ both le =>
    obtain ⟨rfl, here⟩ := both
    obtain ⟨rest, rfl⟩ := List.head?_eq_some_iff.1 here
    cases Option.some.inj closes
    obtain rfl : k = 1 := by omega
    rw [List.cons_append, List.cons_append, skip_close, Nat.add_sub_cancel]
    exact if_congr (by omega) rfl rfl
  | case4 k c cs _ both more ih =>
    obtain ⟨rfl, here⟩ := both
    obtain ⟨rest, rfl⟩ := List.head?_eq_some_iff.1 here
    rw [List.cons_append, List.cons_append, skip_close, if_neg (by omega),
      Nat.add_sub_assoc (by omega)]
    exact ih closes (by omega) n
  | case5 k c cs _ _ both ih =>
    obtain ⟨rfl, here⟩ := both
    obtain ⟨rest, rfl⟩ := List.head?_eq_some_iff.1 here
    rw [List.cons_append, List.cons_append, skip_open]
    exact ih closes (by omega) n
  | case6 k c cs letter neither neither' ih =>
    cases cs with
    | nil =>
      rw [skip] at closes
      cases closes
    | cons d cs =>
      have step : skip (n + k) (c :: (d :: cs ++ y)) = skip (n + k) (d :: cs ++ y) :=
        skip_other _ letter neither neither'
      exact step.trans (ih closes positive n)

/-- Characters in front of a blank close a comment, or leave it open some number of times, or end
the text, whatever follows the blank. -/
theorem skip_blank {n : Nat} (positive : 0 < n) (x : List Char) :
    (∃ x', ∀ z, skip n (x ++ ' ' :: z) = some (x' ++ ' ' :: z)) ∨
      (∃ m, ∀ z, skip n (x ++ ' ' :: z) = skip (m + 1) z) ∨ ∀ z, skip n (x ++ ' ' :: z) = none := by
  fun_induction skip n x with
  | case1 n =>
    obtain ⟨m, rfl⟩ := Nat.exists_eq_add_one.2 positive
    exact .inr (.inl ⟨m, fun z => skip_other _ (by decide) (by simp) (by simp)⟩)
  | case2 n cs =>
    refine .inr (.inr fun z => ?_)
    rw [List.cons_append, skip, if_pos rfl]
  | case3 n c cs _ both le =>
    obtain ⟨rfl, here⟩ := both
    obtain ⟨rest, rfl⟩ := List.head?_eq_some_iff.1 here
    refine .inl ⟨rest, fun z => ?_⟩
    rw [List.cons_append, List.cons_append, skip_close, if_pos le]
  | case4 n c cs _ both more ih =>
    obtain ⟨rfl, here⟩ := both
    obtain ⟨rest, rfl⟩ := List.head?_eq_some_iff.1 here
    simp only [List.cons_append, skip_close, if_neg more]
    exact ih (by omega)
  | case5 n c cs _ _ both ih =>
    obtain ⟨rfl, here⟩ := both
    obtain ⟨rest, rfl⟩ := List.head?_eq_some_iff.1 here
    simp only [List.cons_append, skip_open]
    exact ih (by omega)
  | case6 n c cs letter neither neither' ih =>
    have step : ∀ z, skip n (c :: cs ++ ' ' :: z) = skip n (cs ++ ' ' :: z) := by
      intro z
      cases cs with
      | nil => exact skip_other _ letter (by simp) (by simp)
      | cons d cs => exact skip_other _ letter neither neither'
    simp only [step]
    exact ih positive

theorem not_mem_of_skip {k : Nat} (closes : skip k r = some []) : '\x00' ∉ r := by
  fun_induction skip k r with
  | case1 => simp
  | case2 => cases closes
  | case3 k c cs letter both le =>
    obtain ⟨rest, rfl⟩ := List.head?_eq_some_iff.1 both.2
    cases Option.some.inj closes
    simpa using Ne.symm letter
  | case4 k c cs letter both more ih =>
    obtain ⟨rest, rfl⟩ := List.head?_eq_some_iff.1 both.2
    simpa [Ne.symm letter] using ih closes
  | case5 k c cs letter _ both ih =>
    obtain ⟨rest, rfl⟩ := List.head?_eq_some_iff.1 both.2
    simpa [Ne.symm letter] using ih closes
  | case6 k c cs letter _ _ ih => simpa [Ne.symm letter] using ih closes

/-- The two texts from some character on. In front of the blank `x` is left of what they share; then
the first lexer alone passes the comment and the blanks behind it; and then there is no difference,
but perhaps behind a null character. -/
inductive Alike (r y : List Char) : Bool → List Char → List Char → Prop
  | before (stuck : Bool) (x : List Char) :
      Alike r y stuck (x ++ ' ' :: '/' :: '*' :: (r ++ y)) (x ++ ' ' :: y)
  | opened : Alike r y false ('/' :: '*' :: (r ++ y)) (y.dropWhile isBlank)
  | closed : Alike r y false y (y.dropWhile isBlank)
  | behind (stuck : Bool) (cs : List Char) : Alike r y stuck cs cs
  | ended (stuck : Bool) (cs cs' : List Char) : Alike r y stuck ('\x00' :: cs) ('\x00' :: cs')

/-- The same turn, in front of texts that are alike again. -/
inductive Paired (r y : List Char) : Turn → Turn → Prop
  | ended : Paired r y .ended .ended
  | deliver {id : UInt32} {text : Option String} {cs cs' : List Char}
      (alike : Alike r y false cs cs') :
      Paired r y (.deliver id text cs) (.deliver id text cs')
  | go {more : List Message} {afterError stuck : Bool} {cs cs' : List Char}
      (alike : Alike r y stuck cs cs') :
      Paired r y (.go more afterError stuck cs) (.go more afterError stuck cs')

theorem paired_self (afterError stuck : Bool) (cs : List Char) :
    Paired r y (turn afterError stuck cs) (turn afterError stuck cs) := by
  cases turn afterError stuck cs with
  | ended => exact .ended
  | deliver => exact .deliver (.behind _ _)
  | go => exact .go (.behind _ _)

theorem fromNull_of_mem {x : List Char} (null : '\x00' ∈ x) :
    ∃ rest, ∀ z, fromNull (x ++ z) = '\x00' :: (rest ++ z) := by
  induction x with
  | nil => cases null
  | cons c x ih =>
    by_cases here : c = '\x00'
    · subst here
      exact ⟨x, fun z => rfl⟩
    · obtain ⟨rest, same⟩ := ih ((List.mem_cons.1 null).resolve_left (Ne.symm here))
      refine ⟨rest, fun z => ?_⟩
      rw [List.cons_append, ← List.singleton_append, fromNull_append (by simpa using Ne.symm here),
        same]

/-- A comment that is open in front of the blank. -/
theorem alike_fromNull (closes : skip 1 r = some []) (x : List Char) :
    Alike r y false (fromNull (x ++ ' ' :: '/' :: '*' :: (r ++ y))) (fromNull (x ++ ' ' :: y)) := by
  by_cases null : '\x00' ∈ x
  · obtain ⟨rest, same⟩ := fromNull_of_mem null
    rw [same, same]
    exact .ended _ _ _
  · have letters : '\x00' ∉ x ++ ' ' :: '/' :: '*' :: r := by
      simp [null, not_mem_of_skip closes]
    have letters' : '\x00' ∉ x ++ [' '] := by simp [null]
    have first := fromNull_append letters y
    have second := fromNull_append letters' y
    simp only [List.append_assoc, List.cons_append, List.nil_append] at first second
    rw [first, second]
    exact .behind _ _

theorem turn_null (afterError stuck : Bool) (cs : List Char) :
    turn afterError stuck ('\x00' :: cs) = .ended := by
  rw [turn, if_pos rfl]

theorem turn_blanks {x : List Char} (all : x.all isBlank = true) (afterError stuck : Bool)
    (z : List Char) :
    turn afterError stuck (x ++ ' ' :: z) = .go [] afterError false (z.dropWhile isBlank) := by
  have found := munch_blanks all z
  cases x with
  | nil =>
    rw [List.nil_append] at found ⊢
    rw [turn, if_neg (by decide), found]
    rfl
  | cons c x =>
    have letter : c ≠ '\x00' := by
      rintro rfl
      cases all
    rw [List.cons_append] at found ⊢
    rw [turn, if_neg letter, found]
    rfl

/-- Two lexers within a comment that is open in front of the blank come to places that are alike. -/
theorem skip_alike (closes : skip 1 r = some []) (x : List Char) :
    (∃ x', skip 1 (x ++ ' ' :: '/' :: '*' :: (r ++ y)) =
        some (x' ++ ' ' :: '/' :: '*' :: (r ++ y)) ∧
      skip 1 (x ++ ' ' :: y) = some (x' ++ ' ' :: y)) ∨
    skip 1 (x ++ ' ' :: '/' :: '*' :: (r ++ y)) = skip 1 (x ++ ' ' :: y) := by
  rcases skip_blank Nat.one_pos x with ⟨x', same⟩ | ⟨m, same⟩ | none
  · exact .inl ⟨x', same _, same _⟩
  · right
    rw [same, same, skip_open, skip_append closes Nat.one_pos (m + 1), if_neg (by omega)]
  · exact .inr (by rw [none, none])

theorem Alike.turn (closes : skip 1 r = some []) (afterError : Bool) {stuck : Bool}
    (alike : Alike r y stuck cs cs') :
    (stuck = false ∧ ∃ rest, turn afterError stuck cs = .go [] afterError false rest ∧
      Alike r y false rest cs') ∨
    Paired r y (turn afterError stuck cs) (turn afterError stuck cs') := by
  cases alike with
  | before _ x =>
    right
    by_cases all : x.all isBlank = true
    · rw [turn_blanks all, turn_blanks all]
      exact .go .opened
    · rw [Bool.not_eq_true] at all
      cases x with
      | nil => cases all
      | cons c x =>
        by_cases ended : c = '\x00'
        · subst ended
          rw [List.cons_append, List.cons_append, turn_null, turn_null]
          exact .ended
        have found := munch_append all
        simp only [List.cons_append] at found ⊢
        rw [Calculator.turn, Calculator.turn, if_neg ended, if_neg ended, found, found]
        cases munch (c :: x) with
        | none => exact .go (.before _ x)
        | some m =>
          obtain ⟨recognized, p, rest⟩ := m
          cases recognized with
          | token id =>
            dsimp only [Option.map_some]
            split
            · exact .go (.before _ rest)
            · exact .deliver (.before _ rest)
          | commentStart =>
            dsimp only [Option.map_some]
            rcases skip_alike (y := y) closes rest with ⟨x', first, second⟩ | same
            · rw [first, second]
              exact .go (.before _ x')
            · rw [same]
              cases skip 1 (rest ++ ' ' :: y) with
              | some behind => exact .go (.behind _ behind)
              | none => exact .go (alike_fromNull closes rest)
          | commentEnd => exact .go (.before _ rest)
          | nothing => exact .go (.before _ rest)
          | followAccept => exact .go (.before _ rest)
  | opened =>
    refine .inl ⟨rfl, y, ?_, .closed⟩
    have found : munch ('/' :: '*' :: (r ++ y)) = some (.commentStart, ['/', '*'], r ++ y) := by
      simp [munch, show isBlank '/' = false by decide]
    have skipped := skip_append closes Nat.one_pos 0 y
    rw [Nat.zero_add, if_pos rfl] at skipped
    rw [Calculator.turn, if_neg (by decide), found]
    dsimp only
    rw [skipped]
  | closed =>
    cases y with
    | nil => exact .inr (paired_self _ _ [])
    | cons c rest =>
      cases blank : isBlank c with
      | true =>
        left
        rw [List.dropWhile_cons, if_pos blank]
        have letter : c ≠ '\x00' := by
          rintro rfl
          cases blank
        refine ⟨rfl, rest.dropWhile isBlank, ?_, .behind _ _⟩
        rw [Calculator.turn, if_neg letter, munch, if_pos blank]
        rfl
      | false =>
        right
        rw [List.dropWhile_cons, blank, if_neg Bool.false_ne_true]
        exact paired_self _ _ _
  | behind => exact .inr (paired_self _ _ _)
  | ended =>
    right
    rw [turn_null, turn_null]
    exact .ended

/-- What there is to see of a token apart from its place. -/
def shown (t : Token) : UInt32 × Option String × Bool := (t.id, t.text, t.error)

/-- Lexers in front of texts that are alike, with the same messages so far. -/
structure Together (r y : List Char) (null : Bool) (l l' : Lexer) : Prop where
  place : ∃ cs cs', l.cursor.Faces null cs ∧ l'.cursor.Faces null cs' ∧ Alike r y l.stuck cs cs'
  stuck : l.stuck = l'.stuck
  messages : messages l = messages l'

theorem together_start {null : Bool} {s s' : Source} (first : (Cursor.start s).Faces null cs)
    (second : (Cursor.start s').Faces null cs') (alike : Alike r y false cs cs') :
    Together r y null (Lexer.start s) (Lexer.start s') :=
  ⟨⟨cs, cs', first, second, alike⟩, rfl, rfl⟩

section Lexers

variable {flavor : Flavor} {null : Bool} (closes : skip 1 r = some []) {l l' : Lexer}

include closes

theorem Together.nextFrom {n n' : Nat} {afterError : Bool} (together : Together r y null l l') :
    Matches (fun a b => shown a.1 = shown b.1 ∧ Together r y null a.2 b.2)
      (Lexer.nextFrom (grammar flavor) n afterError l)
      (Lexer.nextFrom (grammar flavor) n' afterError l') := by
  induction n generalizing n' afterError l l' with
  | zero =>
    intro _ _ first
    cases first
  | succ n ih =>
    intro a b first second
    obtain ⟨⟨cs, cs', faces, faces', alike⟩, stuck, told⟩ := together
    have turned := turned_nextFrom faces first
    rcases alike.turn closes afterError with ⟨free, rest, alone, alike⟩ | paired
    · rw [alone] at turned
      obtain ⟨l₁, faces₁, stuck₁, told₁, result⟩ := turned
      rw [List.append_nil] at told₁
      exact ih ⟨⟨rest, cs', faces₁, faces', stuck₁ ▸ alike⟩, by rw [stuck₁, ← stuck, free],
        told₁.trans told⟩ a b result second
    · cases n' with
      | zero => cases second
      | succ n' =>
        have turned' := turned_nextFrom faces' second
        rw [← stuck] at turned'
        generalize Calculator.turn afterError l.stuck cs = u at turned paired
        generalize Calculator.turn afterError l.stuck cs' = u' at turned' paired
        cases paired with
        | ended =>
          cases turned
          cases turned'
          exact ⟨rfl, ⟨cs, cs', faces, faces', alike⟩, stuck, told⟩
        | deliver alike =>
          obtain ⟨token, faces₁, stuck₁, same⟩ := turned
          obtain ⟨token', faces₁', stuck₁', same'⟩ := turned'
          refine ⟨by rw [token, token']; rfl, ⟨_, _, faces₁, faces₁', stuck₁ ▸ alike⟩,
            stuck₁.trans stuck₁'.symm, ?_⟩
          unfold Calculator.messages at told ⊢
          rw [same, same', told]
        | go alike =>
          obtain ⟨l₁, faces₁, stuck₁, told₁, result⟩ := turned
          obtain ⟨l₁', faces₁', stuck₁', told₁', result'⟩ := turned'
          exact ih ⟨⟨_, _, faces₁, faces₁', stuck₁ ▸ alike⟩, stuck₁.trans stuck₁'.symm,
            by rw [told₁, told₁', told]⟩ a b result result'

theorem Together.nextMany (together : Together r y null l l') (n : Nat) :
    Matches (fun a b => a.1.map shown = b.1.map shown ∧ Together r y null a.2 b.2)
      (l.nextMany (grammar flavor) n) (l'.nextMany (grammar flavor) n) := by
  induction n generalizing l l' with
  | zero => exact .pure ⟨rfl, together⟩
  | succ n ih =>
    refine (together.nextFrom closes).bind fun (t, l₁) (t', l₁') ⟨same, together⟩ => ?_
    refine (ih together).bind fun (ts, l₂) (ts', l₂') ⟨others, together⟩ => ?_
    exact .pure ⟨congrArg₂ List.cons same others, together⟩

theorem Together.tokensFrom {n n' : Nat} (together : Together r y null l l') :
    Matches (fun a b => a.1.map shown = b.1.map shown ∧ Together r y null a.2 b.2)
      (Lexer.tokensFrom (grammar flavor) n l) (Lexer.tokensFrom (grammar flavor) n' l') := by
  induction n generalizing n' l l' with
  | zero =>
    intro _ _ first
    cases first
  | succ n ih =>
    cases n' with
    | zero =>
      intro _ _ _ second
      cases second
    | succ n' =>
      refine (together.nextFrom closes).bind fun (t, l₁) (t', l₁') ⟨same, together⟩ => ?_
      have ends : t.isEnd = t'.isEnd := by
        rw [Token.isEnd, Token.isEnd, (Prod.mk.inj same).1]
      dsimp only
      rw [ends]
      split
      · exact .pure ⟨rfl, together⟩
      · refine (ih together).bind fun (ts, l₂) (ts', l₂') ⟨others, together⟩ => ?_
        exact .pure ⟨congrArg₂ List.cons same others, together⟩

theorem Together.tokens (together : Together r y null l l') :
    Matches (fun a b => a.1.map shown = b.1.map shown ∧
      a.2.map Diagnostic.message = b.2.map Diagnostic.message)
      (l.tokens (grammar flavor)) (l'.tokens (grammar flavor)) :=
  (together.tokensFrom closes).bind fun _ _ ⟨same, together⟩ => .pure ⟨same, together.messages⟩

end Lexers

/-- Skipping the text from nesting one closes the comment at its very end. -/
def Balanced (flavor : Flavor) (text : String) : Prop :=
  let l := Lexer.start (.ofText text false)
  ∃ l', Lexer.skipComment (grammar flavor) l.origin l.turns 1 l = .ok l' ∧
    l'.diagnostics = #[] ∧ l'.origin.pos = text.utf8ByteSize

theorem Balanced.skip {flavor : Flavor} {text : String} (balanced : Balanced flavor text) :
    skip 1 text.toList = some [] := by
  obtain ⟨l', result, quiet, pos⟩ := balanced
  have faces := Cursor.faces_start text false
  have sound := Grammar.sound_of_check (check_grammar flavor)
  have returns : ∀ (o : Origin) (l : Lexer), l.cursor.Faithful →
      Yields (Lexer.skipComment (grammar flavor) o l.turns 1 l) l.Leads := fun o l faithful =>
    Lexer.yields_skipComment sound (by cases flavor <;> decide) faithful Nat.one_pos
      (Nat.lt_succ_self _)
  obtain ⟨_, same, leads⟩ := returns _ (Lexer.start (.ofText text false)) faces.placed.faithful
  cases result.symm.trans same
  have skipped := skipped_skipComment (l := Lexer.start (.ofText text false)) faces Nat.one_pos
    result
  cases found : Calculator.skip 1 text.toList with
  | none =>
    rw [found] at skipped
    obtain ⟨c', rfl, _⟩ := skipped
    simp [Lexer.diagnose] at quiet
  | some rest =>
    rw [found] at skipped
    obtain ⟨c', rfl, faces'⟩ := skipped
    obtain ⟨x, y, whole, size, ahead⟩ := faces'.placed.exists_rest leads.source
    have empty : y = "" := by
      have total := congrArg String.utf8ByteSize whole
      rw [String.utf8ByteSize_append, size] at total
      change c'.pos = _ at pos
      exact String.utf8ByteSize_eq_zero_iff.1 (by omega)
    subst empty
    -- Behind the last character only the end of text is read, and it is narrower than any other.
    cases rest with
    | nil => rfl
    | cons c rest =>
      have first := congrFun (faces'.ahead.symm.trans ahead) 0
      rw [(Cursor.faces_start "" false).ahead] at first
      have narrow : c.utf8Size = 0 := congrArg Reading.width first
      have wide := c.utf8Size_pos
      omega

end Samples.Calculator

open Samples.Calculator

/-- A comment behind a blank changes nothing about the tokens and the messages of the errors, apart
from their places. -/
theorem comments_are_transparent (flavor : Flavor) (null : Bool) (x c y : String)
    (balanced : Balanced flavor (c ++ "*/")) :
    (∃ ts ds ts' ds',
      (Lexer.start (.ofText (x ++ " /*" ++ c ++ "*/" ++ y) null)).tokens (grammar flavor) =
        .ok (ts, ds) ∧
      (Lexer.start (.ofText (x ++ " " ++ y) null)).tokens (grammar flavor) = .ok (ts', ds') ∧
      ts.map shown = ts'.map shown ∧
      ds.map Diagnostic.message = ds'.map Diagnostic.message) ∧
    ∀ n, ∃ ts l ts' l',
      (Lexer.start (.ofText (x ++ " /*" ++ c ++ "*/" ++ y) null)).nextMany (grammar flavor) n =
        .ok (ts, l) ∧
      (Lexer.start (.ofText (x ++ " " ++ y) null)).nextMany (grammar flavor) n = .ok (ts', l') ∧
      ts.map shown = ts'.map shown ∧ messages l = messages l' := by
  have sound := Grammar.sound_of_check (check_grammar flavor)
  have closes := balanced.skip
  have alike : Alike (c ++ "*/").toList y.toList false (x ++ " /*" ++ c ++ "*/" ++ y).toList
      (x ++ " " ++ y).toList := by
    have before := Alike.before (r := (c ++ "*/").toList) (y := y.toList) false x.toList
    simpa [String.toList_append] using before
  have together :=
    together_start (Cursor.faces_start _ null) (Cursor.faces_start _ null) alike
  have faithful := fun text => Cursor.faithful_start (.ofText text null)
  constructor
  · obtain ⟨⟨ts, ds⟩, all, _⟩ := Lexer.yields_tokens (l := Lexer.start _) sound (faithful _)
    obtain ⟨⟨ts', ds'⟩, all', _⟩ := Lexer.yields_tokens (l := Lexer.start _) sound (faithful _)
    exact ⟨ts, ds, ts', ds', all, all', together.tokens closes _ _ all all'⟩
  · intro n
    obtain ⟨⟨ts, l⟩, many, _⟩ := Lexer.yields_nextMany (l := Lexer.start _) sound (faithful _) n
    obtain ⟨⟨ts', l'⟩, many', _⟩ := Lexer.yields_nextMany (l := Lexer.start _) sound (faithful _) n
    obtain ⟨same, together⟩ := together.nextMany closes n _ _ many many'
    exact ⟨ts, l, ts', l', many, many', same, together.messages⟩

/-- A comment with another one in it, between an unreadable character and a sum. -/
theorem nested_comment_is_transparent :
    Balanced .hard (" a /* b */ " ++ "*/") ∧ ∃ ts ds ts' ds',
      (Lexer.start (.ofText ("1@" ++ " /*" ++ " a /* b */ " ++ "*/" ++ "+2") false)).tokens
        (grammar .hard) = .ok (ts, ds) ∧
      (Lexer.start (.ofText ("1@" ++ " " ++ "+2") false)).tokens (grammar .hard) = .ok (ts', ds') ∧
      ts.map shown = ts'.map shown ∧ ds.map Diagnostic.message = ds'.map Diagnostic.message := by
  have skipped : ((let l := Lexer.start (.ofText (" a /* b */ " ++ "*/") false)
      Lexer.skipComment (grammar .hard) l.origin l.turns 1 l).toOption.map fun l' =>
        (l'.diagnostics, l'.origin.pos)) = some (#[], 13) := by
    decide +kernel
  obtain ⟨l', found, ends⟩ := Option.map_eq_some_iff.1 skipped
  obtain ⟨quiet, pos⟩ := Prod.mk.inj ends
  have size : (" a /* b */ " ++ "*/").utf8ByteSize = 13 := by decide +kernel
  have balanced : Balanced .hard (" a /* b */ " ++ "*/") :=
    ⟨l', eq_ok_of_toOption found, quiet, pos.trans size.symm⟩
  exact ⟨balanced, (comments_are_transparent .hard false "1@" _ "+2" balanced).1⟩

end GrammarMachine
