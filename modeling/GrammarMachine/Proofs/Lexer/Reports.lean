import GrammarMachine.Proofs.Lexer.Progress

/-!
What a lexer has reported makes no difference to what it delivers. Lexers with the same cursor, in
or out of the same run of unexpected characters, deliver the same tokens, whatever diagnostics they
hold; a parser that takes the diagnostics at each token therefore reads the tokens that are there
for a lexer left alone.
-/

namespace GrammarMachine.Lexer

variable {g : Grammar} {l l' l₁ : Lexer} {t : Token} {ts : List Token}

/-- Lexers that differ at most in what they have reported and counted. -/
structure Akin (l l' : Lexer) : Prop where
  cursor : l.cursor = l'.cursor
  stuck : l.stuck = l'.stuck

namespace Akin

theorem diagnose (akin : l.Akin l') (o : Origin) (key : Key) (args : List String) :
    (l.diagnose o key args).Akin (l'.diagnose o key args) := ⟨akin.cursor, akin.stuck⟩

theorem scan (akin : l.Akin l') (a : Automaton) :
    Matches (fun r r' => r.1 = r'.1 ∧ r.2.Akin r'.2) (l.scan a) (l'.scan a) := by
  unfold Lexer.scan
  rw [akin.cursor]
  exact .same fun _ _ => .pure ⟨rfl, rfl, akin.stuck⟩

theorem consume (akin : l.Akin l') (n : Nat) : Matches Akin (l.consume n) (l'.consume n) := by
  unfold Lexer.consume
  rw [akin.cursor]
  exact .same fun _ _ => .pure ⟨rfl, akin.stuck⟩

theorem skipComment (akin : l.Akin l') {o : Origin} {n nesting : Nat} :
    Matches Akin (skipComment g o n nesting l) (skipComment g o n nesting l') := by
  induction n generalizing nesting l l' with
  | zero =>
    intro _ _ first
    cases first
  | succ n ih =>
    unfold Lexer.skipComment
    rw [akin.cursor]
    refine .same fun ended _ => ?_
    split
    · exact .pure (akin.diagnose _ _ _)
    · refine (akin.scan g.comments).bind ?_
      rintro ⟨found, l₁⟩ ⟨_, l₁'⟩ ⟨⟨⟩, akin⟩
      cases found with
      | none => exact (akin.consume 1).bind fun _ _ akin => ih akin
      | some m =>
        refine (akin.consume m.length).bind fun l₂ l₂' akin => ?_
        cases m.recognized with
        | token id =>
          dsimp only
          split
          · exact ih akin
          · split
            · cases nesting with
              | zero =>
                intro _ _ first
                cases first
              | succ nesting =>
                cases nesting with
                | zero => exact .pure akin
                | succ nesting => exact ih akin
            · split
              · exact .pure (akin.diagnose _ _ _)
              · exact ih akin
        | _ => exact ih akin

theorem nextFrom (akin : l.Akin l') {n : Nat} {afterError : Bool} :
    Matches (fun r r' => r.1 = r'.1 ∧ r.2.Akin r'.2) (nextFrom g n afterError l)
      (nextFrom g n afterError l') := by
  induction n generalizing afterError l l' with
  | zero =>
    intro _ _ first
    cases first
  | succ n ih =>
    unfold Lexer.nextFrom Lexer.origin
    rw [akin.cursor]
    refine .same fun head _ => ?_
    split
    · exact .pure ⟨rfl, akin⟩
    · refine (akin.scan g.lexer).bind ?_
      rintro ⟨found, l₁⟩ ⟨_, l₁'⟩ ⟨⟨⟩, akin⟩
      dsimp only at akin
      cases found with
      | none =>
        dsimp only
        refine Matches.bind (R := Akin) (Akin.consume ?_ 1) fun _ _ akin => ih akin
        rw [akin.stuck]
        split
        · exact akin
        · exact ⟨akin.cursor, rfl⟩
      | some m =>
        have free : Akin { l₁ with stuck := false } { l₁' with stuck := false } :=
          ⟨akin.cursor, rfl⟩
        have text : l₁.cursor.text m.length = l₁'.cursor.text m.length := by rw [akin.cursor]
        dsimp only
        rw [text]
        refine (free.consume m.length).bind fun l₂ l₂' akin => ?_
        cases m.recognized with
        | token id =>
          dsimp only
          cases g.token? id with
          | none => exact ih akin
          | some info =>
            dsimp only
            split
            · exact .pure ⟨rfl, akin.cursor, akin.stuck⟩
            · exact ih akin
        | commentStart =>
          dsimp only [Lexer.turns]
          rw [akin.cursor]
          exact akin.skipComment.bind fun _ _ akin => ih akin
        | commentEnd => exact ih (akin.diagnose _ _ _)
        | nothing => exact ih akin
        | followAccept => exact ih akin

/-- The same tokens come next. -/
theorem next (akin : l.Akin l') :
    Matches (fun r r' => r.1 = r'.1 ∧ r.2.Akin r'.2) (l.next g) (l'.next g) := by
  unfold Lexer.next Lexer.turns
  rw [akin.cursor]
  exact akin.nextFrom

end Akin

/-- The tokens that a reader of the lexer meets from `t` on, in front of the first end of text,
whatever becomes of the diagnostics on the way. -/
inductive Upcoming (g : Grammar) : Token → Lexer → List Token → Prop
  | ended {t : Token} {l : Lexer} (ended : t.isEnd = true) : Upcoming g t l []
  | more {t t' : Token} {l l' : Lexer} {ts : List Token} (going : t.isEnd = false)
      (delivers : l.next g = .ok (t', l')) (rest : Upcoming g t' l' ts) : Upcoming g t l (t :: ts)

theorem Upcoming.akin (upcoming : Upcoming g t l ts) (akin : l.Akin l') (sound : g.Sound)
    (faithful : l'.cursor.Faithful) : Upcoming g t l' ts := by
  induction upcoming generalizing l' with
  | ended ended => exact .ended ended
  | more going delivers _ ih =>
    obtain ⟨⟨t', l₁'⟩, delivers', leads⟩ := yields_next sound faithful
    obtain ⟨same, akin⟩ := akin.next _ _ delivers delivers'
    cases same
    exact .more going delivers' (ih akin leads.leads.faithful)

/-- Each of the tokens takes a turn. -/
theorem Upcoming.length_le (upcoming : Upcoming g t l ts) (sound : g.Sound)
    (faithful : l.cursor.Faithful) : ts.length ≤ l.turns := by
  induction upcoming with
  | ended => exact Nat.zero_le _
  | @more t t' l l' ts going delivers rest ih =>
    obtain ⟨_, same, leads⟩ := yields_next sound faithful
    cases delivers.symm.trans same
    have few := ih leads.leads.faithful
    rw [List.length_cons]
    cases rest with
    | ended => exact Nat.succ_le_succ (Nat.zero_le _)
    | more going' =>
      have fewer := (leads.passes going').remaining_lt
      unfold turns at few ⊢
      omega

/-- The tokens of a lexer left alone are those that its readers meet behind a token. -/
theorem upcoming_of_tokensFrom {n : Nat} (going : t.isEnd = false)
    (tokens : l.tokensFrom g n = .ok (ts, l')) : Upcoming g t l (t :: ts) := by
  induction n generalizing t l ts with
  | zero => cases tokens
  | succ n ih =>
    obtain ⟨⟨t', l₁⟩, delivers, rest⟩ := bind_eq_ok_iff.1 tokens
    dsimp only at rest
    split at rest
    · next ended =>
      cases rest
      exact .more going delivers (.ended ended)
    · next other =>
      obtain ⟨⟨others, l₂⟩, later, same⟩ := bind_eq_ok_iff.1 rest
      cases same
      exact .more going delivers (ih (Bool.not_eq_true _ ▸ other) later)

end GrammarMachine.Lexer
