import GrammarMachine.Lexer.Basic
import GrammarMachine.Proofs.Success

/-!
The loops of the lexer, turn by turn. `Lexer.step` is one turn of the loop that looks for the next
token and `Lexer.commentStep` one turn within a comment; the loops are these steps, one after the
other. A turn takes a piece off the text or finds the text at its end, so a call cuts the text into
stretches up to the token that it returns.
-/

namespace GrammarMachine.Lexer

/-- What a turn of the lexer takes off the text. -/
inductive Piece where
  | token (t : Token)
  /-- A match that separates tokens and is dropped. -/
  | blank
  | comment
  /-- The mark that ends a comment, where none is open. -/
  | strayEnd
  /-- A single character in front of which nothing is matched. -/
  | unmatched
deriving DecidableEq, Repr

/-- The next token comes behind something unreadable. -/
def Piece.spoils : Piece → Bool
  | unmatched => true
  | strayEnd => true
  | token _ => false
  | blank => false
  | comment => false

/-- What a turn of the lexer leads to. -/
inductive Step where
  | ended (t : Token)
  | takes (piece : Piece) (next : Lexer)

/-- One turn of the loop that looks for the next token. -/
def step (g : Grammar) (afterError : Bool) (l : Lexer) : Except Fault Step := do
  let origin := l.origin
  let head ← l.cursor.head
  if head.isEnd then return .ended ⟨endOfText, none, origin, afterError⟩
  let (found, l) ← l.scan g.lexer
  match found with
  | none =>
    let l := if l.stuck then l
      else { l.diagnose origin .unexpectedChar [describe head.code] with stuck := true }
    return .takes .unmatched (← l.consume 1)
  | some m =>
    let text := l.cursor.text m.length
    let l ← { l with stuck := false }.consume m.length
    match m.recognized with
    | .token id =>
      match g.token? id with
      | none => return .takes .blank l
      | some info =>
        if info.significant then
          return .takes (.token ⟨id, if info.carriesValue then some text else none, origin,
            afterError⟩) { l with tokenCount := l.tokenCount + 1 }
        else return .takes .blank l
    | .commentStart => return .takes .comment (← skipComment g origin l.turns 1 l)
    | .commentEnd => return .takes .strayEnd (l.diagnose origin .unexpectedCommentEnd [])
    | .nothing => return .takes .blank l
    | .followAccept => return .takes .blank l

/-- What a turn within a comment leads to: behind the comment, or on with its nesting. -/
inductive CommentStep where
  | leaves (next : Lexer)
  | stays (nesting : Nat) (next : Lexer)

/-- One turn of the loop that skips a comment. -/
def commentStep (g : Grammar) (start : Origin) (nesting : Nat) (l : Lexer) :
    Except Fault CommentStep := do
  if ← l.cursor.atEnd then return .leaves (l.diagnose start .unterminatedComment [])
  let (found, l) ← l.scan g.comments
  match found with
  | none => return .stays nesting (← l.consume 1)
  | some m =>
    let l ← l.consume m.length
    match m.recognized with
    | .token id =>
      if id == commentBegin then return .stays (nesting + 1) l
      else if id == commentClose then
        match nesting with
        | 0 => .error .nesting
        | 1 => return .leaves l
        | nesting + 2 => return .stays (nesting + 1) l
      else if id == commentEof then return .leaves (l.diagnose start .unterminatedComment [])
      else return .stays nesting l
    | _ => return .stays nesting l

variable {g : Grammar} {l l' : Lexer} {afterError : Bool}

/-- The loop that looks for the next token takes one step after the other. -/
theorem nextFrom_succ (g : Grammar) (n : Nat) (afterError : Bool) (l : Lexer) :
    nextFrom g (n + 1) afterError l = (do
      match ← step g afterError l with
      | .ended t => return (t, l)
      | .takes (.token t) next => return (t, next)
      | .takes piece next => nextFrom g n (afterError || piece.spoils) next) := by
  rw [nextFrom, step]
  dsimp only
  rw [bind_assoc]
  refine bind_congr fun head => ?_
  split
  · rfl
  rw [bind_assoc]
  refine bind_congr fun (found, l₁) => ?_
  cases found with
  | none =>
    dsimp only
    rw [bind_assoc]
    refine bind_congr fun l₂ => ?_
    rw [pure_bind]
    dsimp only
    rw [show Piece.unmatched.spoils = true from rfl, Bool.or_true]
  | some m =>
    dsimp only
    rw [bind_assoc]
    refine bind_congr fun l₂ => ?_
    have dropped : ∀ next : Lexer, nextFrom g n afterError next =
        nextFrom g n (afterError || Piece.blank.spoils) next := by
      intro next
      rw [show Piece.blank.spoils = false from rfl, Bool.or_false]
    cases m.recognized with
    | token id =>
      dsimp only
      cases g.token? id with
      | none => exact dropped l₂
      | some info =>
        dsimp only
        split
        · rfl
        · exact dropped l₂
    | commentStart =>
      dsimp only
      rw [bind_assoc]
      refine bind_congr fun l₃ => ?_
      rw [pure_bind]
      dsimp only
      rw [show Piece.comment.spoils = false from rfl, Bool.or_false]
    | commentEnd =>
      rw [pure_bind]
      dsimp only
      rw [show Piece.strayEnd.spoils = true from rfl, Bool.or_true]
    | nothing => exact dropped l₂
    | followAccept => exact dropped l₂

/-- The loop within a comment takes one step after the other. -/
theorem skipComment_succ (g : Grammar) (start : Origin) (n nesting : Nat) (l : Lexer) :
    skipComment g start (n + 1) nesting l = (do
      match ← commentStep g start nesting l with
      | .leaves next => return next
      | .stays nesting next => skipComment g start n nesting next) := by
  rw [skipComment, commentStep]
  rw [bind_assoc]
  refine bind_congr fun ended => ?_
  split
  · rfl
  rw [bind_assoc]
  refine bind_congr fun (found, l₁) => ?_
  cases found with
  | none =>
    dsimp only
    rw [bind_assoc]
    refine bind_congr fun l₂ => ?_
    rw [pure_bind]
  | some m =>
    dsimp only
    rw [bind_assoc]
    refine bind_congr fun l₂ => ?_
    cases m.recognized with
    | token id =>
      dsimp only
      split
      · rw [pure_bind]
      split
      · match nesting with
        | 0 => rfl
        | 1 => rfl
        | nesting + 2 => rfl
      split
      · rfl
      · rfl
    | nothing => rfl
    | commentStart => rfl
    | commentEnd => rfl
    | followAccept => rfl

/-- A piece in its place. -/
structure Stretch where
  piece : Piece
  origin : Origin
  /-- Position behind it. -/
  stop : Nat
deriving DecidableEq, Repr

/-- The piece between the places of two lexers. -/
def stretch (piece : Piece) (l next : Lexer) : Stretch := ⟨piece, l.origin, next.origin.pos⟩

/-- A call that starts with `l`: the stretches that it takes off the text, the token that it
returns, and the lexer behind them. -/
inductive Call (g : Grammar) : Bool → Lexer → List Stretch → Token → Lexer → Prop
  | ended {afterError : Bool} {l : Lexer} {t : Token}
      (ends : step g afterError l = .ok (.ended t)) : Call g afterError l [] t l
  | token {afterError : Bool} {l next : Lexer} {t : Token}
      (takes : step g afterError l = .ok (.takes (.token t) next)) :
      Call g afterError l [stretch (.token t) l next] t next
  | passes {afterError : Bool} {l next l' : Lexer} {t : Token} {piece : Piece}
      {stretches : List Stretch} (takes : step g afterError l = .ok (.takes piece next))
      (other : ∀ t, piece ≠ .token t)
      (rest : Call g (afterError || piece.spoils) next stretches t l') :
      Call g afterError l (stretch piece l next :: stretches) t l'

theorem call_of_nextFrom {n : Nat} {t : Token}
    (returns : nextFrom g n afterError l = .ok (t, l')) :
    ∃ stretches, Call g afterError l stretches t l' := by
  induction n generalizing afterError l with
  | zero => cases returns
  | succ n ih =>
    rw [nextFrom_succ] at returns
    obtain ⟨turned, step, rest⟩ := bind_eq_ok_iff.1 returns
    cases turned with
    | ended t' =>
      cases rest
      exact ⟨_, .ended step⟩
    | takes piece next =>
      by_cases token : ∃ t', piece = .token t'
      · obtain ⟨t', rfl⟩ := token
        cases rest
        exact ⟨_, .token step⟩
      · have other : ∀ t', piece ≠ .token t' := fun t' same => token ⟨t', same⟩
        have later : nextFrom g n (afterError || piece.spoils) next = .ok (t, l') := by
          cases piece with
          | token t' => exact absurd rfl (other t')
          | _ => exact rest
        obtain ⟨stretches, call⟩ := ih later
        exact ⟨_, .passes step other call⟩

end GrammarMachine.Lexer
