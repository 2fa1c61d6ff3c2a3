import GrammarMachine.Proofs.Lexer.Pieces

/-!
Uses of a lexer over a source. A session asks for one token after the other and takes the
diagnostics in between as it likes. The turns of its calls are reached one after the other, and so
are those within the comments that it skips; at each of them the lexer stands in its source, and a
turn that goes on has consumed some of it.
-/

namespace GrammarMachine.Lexer

/-- A use of the lexer over `source`: the tokens delivered, the diagnostics taken, and the lexer
between two calls. -/
inductive Session (g : Grammar) (source : Source) : List Token → List Diagnostic → Lexer → Prop
  | start : Session g source [] [] (start source)
  | next {ts : List Token} {ds : List Diagnostic} {l l' : Lexer} {t : Token}
      (session : Session g source ts ds l) (delivers : l.next g = .ok (t, l')) :
      Session g source (ts ++ [t]) ds l'
  | take {ts : List Token} {ds : List Diagnostic} {l : Lexer} (session : Session g source ts ds l) :
      Session g source ts (ds ++ l.takeDiagnostics.1) l.takeDiagnostics.2

/-- A turn of the loop that looks for the next token starts with `l`. -/
inductive Seeks (g : Grammar) (source : Source) : Bool → Lexer → Prop
  | call {ts : List Token} {ds : List Diagnostic} {l : Lexer} (session : Session g source ts ds l) :
      Seeks g source false l
  | again {afterError : Bool} {l next : Lexer} {piece : Piece} (seeks : Seeks g source afterError l)
      (takes : step g afterError l = .ok (.takes piece next)) (other : ∀ t, piece ≠ .token t) :
      Seeks g source (afterError || piece.spoils) next

/-- The turn that starts with `l` consumes the mark that starts a comment, and goes on with `l'`. -/
def Opens (g : Grammar) (l l' : Lexer) : Prop :=
  ∃ m l₁, l.cursor.atEnd = .ok false ∧ l.scan g.lexer = .ok (some m, l₁) ∧
    m.recognized = .commentStart ∧ { l₁ with stuck := false }.consume m.length = .ok l'

/-- A turn within a comment that began at `start` and is open `nesting` times starts with `l`. -/
inductive Within (g : Grammar) (source : Source) : Origin → Nat → Lexer → Prop
  | opened {afterError : Bool} {l l' : Lexer} (seeks : Seeks g source afterError l)
      (opens : Opens g l l') : Within g source l.origin 1 l'
  | again {start : Origin} {nesting nesting' : Nat} {l next : Lexer}
      (within : Within g source start nesting l)
      (stays : commentStep g start nesting l = .ok (.stays nesting' next)) :
      Within g source start nesting' next

/-- The lexer is somewhere in its source. -/
structure Stands (source : Source) (l : Lexer) : Prop where
  faithful : l.cursor.Faithful
  source : l.cursor.reader.source = source

variable {g : Grammar} {source : Source} {l l' next : Lexer} {afterError : Bool} {piece : Piece}
  {start : Origin} {nesting nesting' : Nat}

theorem stands_start (source : Source) : (Lexer.start source).Stands source :=
  ⟨Cursor.faithful_start source, rfl⟩

theorem Stands.leads (stands : l.Stands source) (leads : l.Leads l') : l'.Stands source :=
  ⟨leads.faithful, leads.source.trans stands.source⟩

/-- A comment is skipped to a place that is not in front of it. -/
theorem leads_of_skipped (sound : g.Sound) (root : 0 < g.comments.states.size)
    (faithful : l.cursor.Faithful) (skipped : skipComment g start l.turns 1 l = .ok l') :
    l.Leads l' :=
  (yields_skipComment sound root faithful Nat.one_pos (Nat.lt_succ_self _)).holds skipped

/-- A turn of the lexer goes on behind what it has consumed. -/
theorem passes_of_takes (sound : g.Sound) (takes : Takes g afterError l (.takes piece next)) :
    l.Passes next := by
  cases takes with
  | unmatched going _ consumes => exact passes_of_consumes consumes going Nat.one_pos rfl
  | @matched m c _ _ going munches long consumes sorts =>
    have passes : l.Passes { l with cursor := c, stuck := false } :=
      passes_of_consumes consumes going long rfl
    cases sorts with
    | token => exact passes.congr rfl
    | blank => exact passes
    | comment recognized skipped =>
      have root := comments_of_munches sound munches recognized
      exact passes.trans_leads (leads_of_skipped sound root passes.faithful skipped)
    | strayEnd => exact passes.congr rfl

/-- A turn within a comment goes on behind what it has consumed, with the comment still open. -/
theorem passes_of_stays (skips : Skips start l (.stays nesting next)) :
    l.Passes next ∧ 0 < nesting := by
  cases skips with
  | stays going long consumes nested => exact ⟨passes_of_consumes consumes going long rfl, nested⟩

/-- The mark that starts a comment is the longest match, and there are comments. -/
theorem Opens.consumes (sound : g.Sound) (opens : Opens g l l') (faithful : l.cursor.Faithful) :
    0 < g.comments.states.size ∧ ∃ m c, (l.cursor.ahead 0).isEnd = false ∧ 0 < m.length ∧
      g.lexer.Munches l.cursor.code 0 m ∧ m.recognized = .commentStart ∧
      l.cursor.Consumes m.length c ∧ l' = { l with cursor := c, stuck := false } := by
  obtain ⟨m, l₁, ended, scanned, recognized, consumed⟩ := opens
  obtain ⟨_, ended', read⟩ := Cursor.yields_atEnd faithful
  cases ended.symm.trans ended'
  have going : (l.cursor.ahead 0).isEnd = false := read.symm
  obtain ⟨⟨_, _⟩, scanned', d, rfl, peeked, _, munched⟩ :=
    yields_scan_munch sound.lexer sound.lexer_root faithful
  cases scanned.symm.trans scanned'
  obtain ⟨long, munches, _⟩ := munched m rfl
  obtain ⟨_, consumed', c, rfl, consumes⟩ :=
    yields_consumes (l := { l with stuck := false }) peeked going m.length
  cases consumed.symm.trans consumed'
  have root := comments_of_munches sound munches recognized
  exact ⟨root, m, c, going, long, munches, recognized, consumes, rfl⟩

/-- A session never leaves its source. -/
theorem Session.stands (sound : g.Sound) {ts : List Token} {ds : List Diagnostic}
    (session : Session g source ts ds l) : l.Stands source := by
  induction session with
  | start => exact stands_start source
  | next _ delivers ih =>
    exact ih.leads ((yields_next sound ih.faithful).holds delivers).leads
  | take _ ih => exact ⟨ih.faithful, ih.source⟩

theorem Seeks.stands (sound : g.Sound) (seeks : Seeks g source afterError l) :
    l.Stands source := by
  induction seeks with
  | call session => exact session.stands sound
  | again _ takes _ ih =>
    have turn := (yields_step sound ih.faithful _).holds takes
    exact ih.leads (passes_of_takes sound turn).toLeads

theorem Within.stands (sound : g.Sound) (within : Within g source start nesting l) :
    l.Stands source ∧ 0 < nesting ∧ 0 < g.comments.states.size := by
  induction within with
  | opened seeks opens =>
    have stands := seeks.stands sound
    obtain ⟨root, m, c, going, long, _, _, consumes, rfl⟩ := opens.consumes sound stands.faithful
    exact ⟨stands.leads (passes_of_consumes consumes going long rfl).toLeads, Nat.one_pos, root⟩
  | again _ stays ih =>
    obtain ⟨stands, nested, root⟩ := ih
    have turn := (yields_commentStep sound root stands.faithful _ nested).holds stays
    obtain ⟨passes, nested'⟩ := passes_of_stays turn
    exact ⟨stands.leads passes.toLeads, nested', root⟩

end GrammarMachine.Lexer
