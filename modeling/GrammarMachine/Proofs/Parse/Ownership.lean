import GrammarMachine.Proofs.Parse.Clean
import GrammarMachine.Proofs.Parse.Resumptions

/-!
What the frames of a stack own. Each frame has attributes of its own, which no other frame names,
and they are where the frame is. The frames are in the order of the text, none behind the lookahead.
A shift and a recovery put a frame at the lookahead, on top of frames that were there before; a
reduction puts one where the first of those was that it takes off. The attributes of a new frame are
new nodes, and what becomes of a node in the course of evaluation stays where it was declared.
-/

namespace GrammarMachine

open Evaluation

variable {σ V : Type} {g : Grammar} {h : Host σ V} {options : Options}

/-- The node is at this place, as far as it has one. A value is where the host says it is. -/
def Node.MadeAt (o : Origin) : Node V → Prop
  | .text _ pos _ => pos = o.pos
  | .user _ (some _) _ _ => True
  | .user _ none pos _ => pos = o.pos
  | .term _ _ pos _ => pos = o.pos
  | .null => True
  | .link _ => True
  | .pending state => state.origin = o

namespace Graph

variable {graph graph' : Graph V} {o : Origin} {id : Nat} {node : Node V} {ids : List Nat}

/-- There is a node under this number, made at this place. -/
def MadeAt (graph : Graph V) (o : Origin) (id : Nat) : Prop :=
  ∃ node, graph.nodes[id]? = some node ∧ node.MadeAt o

theorem MadeAt.lt_size (made : graph.MadeAt o id) : id < graph.size := by
  obtain ⟨_, here, _⟩ := made
  exact Graph.lt_size here

/-- In the place of a pending attribute comes what is where that was declared. -/
theorem MadeAt.put {target : Nat} {state : Pending} (made : graph.MadeAt o id)
    (here : graph.nodes[target]? = some (.pending state)) (same : node.MadeAt state.origin) :
    (graph.put target node).MadeAt o id := by
  obtain ⟨old, there, place⟩ := made
  by_cases replaced : target = id
  · subst replaced
    cases here.symm.trans there
    have declared : state.origin = o := place
    rw [declared] at same
    exact ⟨node, getElem?_put_self (Graph.lt_size here), same⟩
  · exact ⟨old, (getElem?_put_ne replaced).trans there, place⟩

theorem MadeAt.allocMany (made : graph.MadeAt o id) (node : Node V) (k : Nat) :
    (graph.allocMany node k).2.MadeAt o id := by
  obtain ⟨old, here, place⟩ := made
  exact ⟨old, (getElem?_allocMany_old (Graph.lt_size here) node k).trans here, place⟩

/-- These nodes have been added at the end, and were made at this place. -/
structure Joins (graph : Graph V) (o : Origin) (ids : List Nat) (graph' : Graph V) : Prop where
  row : ∃ k, ids = List.range' graph.size k
  made : ∀ id ∈ ids, graph'.MadeAt o id
  keeps : ∀ {o : Origin} {id : Nat}, graph.MadeAt o id → graph'.MadeAt o id

theorem joins_allocMany (graph : Graph V) (node : Node V) (place : node.MadeAt o) (k : Nat) :
    graph.Joins o (graph.allocMany node k).1 (graph.allocMany node k).2 := by
  refine ⟨⟨k, ?_⟩, fun id mem => ?_, fun made => made.allocMany node k⟩
  · rw [allocMany_eq]
  · exact ⟨node, getElem?_allocMany_new mem, place⟩

end Graph

namespace Evaluation

variable {e e' e₁ : Evaluation σ V} {target id : Nat} {o : Origin} {events : List (Event σ V)}

theorem Computed.madeAt {a : SemanticAction} {ps : List Nat} {node : Node V}
    (computed : Computed h a ps o e node e₁) : node.MadeAt o := by
  cases computed with
  | term => exact rfl
  | null => trivial
  | value => trivial
  | refusal => exact rfl

theorem Attempted.madeAt (attempted : Attempted g h target e e') (made : e.graph.MadeAt o id) :
    e'.graph.MadeAt o id := by
  cases attempted with
  | idle => exact made
  | self => exact made
  | join here _ _ _ _ different there =>
    rw [← Graph.getElem?_put_ne different] at there
    refine Graph.MadeAt.put ?_ there rfl
    exact made.put here trivial
  | link here => exact made.put here trivial
  | park _ _ _ _ there =>
    dsimp only
    split
    · exact made
    · exact made.put there rfl
  | settle here _ _ _ _ computed => exact made.put here computed.madeAt

theorem Move.madeAt (move : Move g h e events e') (made : e.graph.MadeAt o id) :
    e'.graph.MadeAt o id := by
  cases move with
  | note same =>
    rw [same.graph]
    exact made
  | leaf => exact made.allocMany _ 1
  | declare => exact made.allocMany _ 1
  | define here _ _ attempted => exact attempted.madeAt (made.put here rfl)
  | replay _ attempted => exact attempted.madeAt made

theorem Runs.madeAt (run : Runs g h e events e') (made : e.graph.MadeAt o id) :
    e'.graph.MadeAt o id := by
  induction run with
  | refl => exact made
  | step _ move ih => exact move.madeAt ih

/-- New nodes are still there after a run. -/
theorem Runs.joins {graph : Graph V} {ids : List Nat} (run : Runs g h e events e')
    (joins : graph.Joins o ids e.graph) : graph.Joins o ids e'.graph :=
  ⟨joins.row, fun id mem => run.madeAt (joins.made id mem),
    fun made => run.madeAt (joins.keeps made)⟩

/-- The attributes of a token are where it is. -/
theorem joins_shifting (t : Token) (e : Evaluation σ V) :
    e.graph.Joins t.origin (e.shifting t).1 (e.shifting t).2.graph := by
  unfold shifting Config.tokenAttrs
  cases t.text with
  | none => exact Graph.joins_allocMany e.graph .null trivial 0
  | some text =>
    exact Graph.joins_allocMany e.graph (.text text t.origin.pos t.error) rfl 1

/-- The attributes of a reduction are where its frame is, and so is what its rule makes of them. -/
theorem joins_of_reducing (sound : g.Sound) {c : Config σ V} (healthy : c.Sound g) {id : UInt32}
    {k : Nat} {n : Nonterminal} (inside : id.toNat < g.rules.size)
    (ran : runRule g h id (c.eval.reducing o n).1 ((c.stack.take k).reverse.map Frame.attrs)
      (c.eval.reducing o n).2 = .ok e') :
    c.eval.graph.Joins o (c.eval.reducing o n).1 e'.graph := by
  obtain ⟨_, _, _, run⟩ := runs_of_reducing sound healthy inside ran
  exact run.joins
    (Graph.joins_allocMany c.eval.graph (.pending ⟨none, [], o⟩) rfl n.attributeCount)

end Evaluation

/-- Frames in the order of the text, up to `pos`, each with attributes of its own that were made
where it is. -/
structure Arranged (graph : Graph V) (pos : Nat) (stack : List Frame) : Prop where
  distinct : (stack.flatMap Frame.attrs).Nodup
  ordered : stack.Pairwise fun upper lower => lower.origin.pos ≤ upper.origin.pos
  before : ∀ f ∈ stack, f.origin.pos ≤ pos
  made : ∀ f ∈ stack, ∀ id ∈ f.attrs, graph.MadeAt f.origin id

namespace Arranged

variable {graph graph' : Graph V} {pos pos' : Nat} {stack below : List Frame} {frame : Frame}

theorem mono (arranged : Arranged graph pos stack) (further : pos ≤ pos') :
    Arranged graph pos' stack :=
  { arranged with before := fun f mem => Nat.le_trans (arranged.before f mem) further }

theorem suffix (arranged : Arranged graph pos stack) (suffix : below <:+ stack) :
    Arranged graph pos below := by
  obtain ⟨above, rfl⟩ := suffix
  obtain ⟨distinct, ordered, before, made⟩ := arranged
  rw [List.flatMap_append] at distinct
  exact ⟨distinct.of_append_right, (List.pairwise_append.1 ordered).2.1,
    fun f mem => before f (List.mem_append_right above mem),
    fun f mem => made f (List.mem_append_right above mem)⟩

theorem keep (arranged : Arranged graph pos stack)
    (keeps : ∀ {o : Origin} {id : Nat}, graph.MadeAt o id → graph'.MadeAt o id) :
    Arranged graph' pos stack :=
  { arranged with made := fun f mem id inside => keeps (arranged.made f mem id inside) }

/-- A frame whose attributes are new goes on top of frames that are not behind it. -/
theorem cons (arranged : Arranged graph pos below)
    (joins : graph.Joins frame.origin frame.attrs graph') (before : frame.origin.pos ≤ pos)
    (above : ∀ f ∈ below, f.origin.pos ≤ frame.origin.pos) :
    Arranged graph' pos (frame :: below) := by
  obtain ⟨distinct, ordered, reached, made⟩ := arranged.keep joins.keeps
  obtain ⟨k, row⟩ := joins.row
  refine ⟨?_, List.pairwise_cons.2 ⟨above, ordered⟩, List.forall_mem_cons.2 ⟨before, reached⟩,
    List.forall_mem_cons.2 ⟨joins.made, made⟩⟩
  rw [List.flatMap_cons, row]
  refine Graph.nodup_range'_append distinct (fun id named => ?_) k
  -- What the frames below name was in the graph before.
  obtain ⟨f, mem, inside⟩ := List.mem_flatMap.1 named
  exact (arranged.made f mem id inside).lt_size

end Arranged

namespace Config

variable {c c' : Config σ V}

/-- The lookahead starts in what has been read, and the frames are in order in front of it. -/
structure Tidy (c : Config σ V) : Prop where
  faithful : c.lexer.cursor.Faithful
  before : c.lookahead.origin.pos ≤ c.lexer.cursor.pos
  arranged : Arranged c.eval.graph c.lookahead.origin.pos c.stack

/-- The place of a reduction is not in front of the frames that stay. -/
theorem Tidy.placeOf (tidy : c.Tidy) (r : Rule) :
    (c.placeOf r).pos ≤ c.lookahead.origin.pos ∧
      ∀ f ∈ c.stack.drop r.length.toNat, f.origin.pos ≤ (c.placeOf r).pos := by
  obtain ⟨_, ordered, before, _⟩ := tidy.arranged
  unfold Config.placeOf
  cases first : (c.stack.take r.length.toNat).reverse.head? with
  | none => exact ⟨Nat.le_refl _, fun f mem => before f (List.mem_of_mem_drop mem)⟩
  | some foot =>
    -- It is one of the frames taken off, and all of these are above those that stay.
    have taken : foot ∈ c.stack.take r.length.toNat :=
      List.mem_reverse.1 (List.mem_of_mem_head? first)
    rw [← List.take_append_drop r.length.toNat c.stack] at ordered
    exact ⟨before foot (List.mem_of_mem_take taken),
      (List.pairwise_append.1 ordered).2.2 foot taken⟩

/-- Reading on puts the lookahead further on. -/
theorem Tidy.pull (sound : g.Sound) (tidy : c.Tidy) {e : Evaluation σ V}
    (pulled : pull g h c.lexer e = .ok (c'.lookahead, c'.lexer, c'.eval))
    (arranged : Arranged e.graph c.lookahead.origin.pos c'.stack) : c'.Tidy := by
  obtain ⟨_, same, delivers, undisturbed⟩ : Yields (GrammarMachine.pull g h c.lexer e) _ :=
    yields_pull sound tidy.faithful e
  cases pulled.symm.trans same
  refine ⟨delivers.leads.faithful, delivers.before, ?_⟩
  rw [undisturbed.graph]
  exact arranged.mono (Nat.le_trans tidy.before delivers.behind)

theorem Tidy.shift (sound : g.Sound) (tidy : c.Tidy) {target : UInt32}
    (shifted : c.shift g h target = .ok c') : c'.Tidy := by
  obtain ⟨pulled, stack⟩ := of_shift shifted
  refine tidy.pull sound pulled ?_
  rw [stack]
  exact tidy.arranged.cons (joins_shifting c.lookahead c.eval) (Nat.le_refl _) tidy.arranged.before

theorem Tidy.reduce (sound : g.Sound) (healthy : c.Sound g) (tidy : c.Tidy) {id : UInt32}
    {p : Progress (Config σ V)} (reduced : c.reduce g h id = .ok p) : p.state.Tidy := by
  obtain ⟨faithful, before, arranged⟩ := tidy
  have left : ∀ {r n base below e}, RunsRule g h id c r n base below e →
      c.eval.graph.Joins (c.placeOf r) (c.eval.reducing (c.placeOf r) n).1 e.graph ∧
        Arranged c.eval.graph c.lookahead.origin.pos (base :: below) := by
    intro r n base below e ⟨rule, popped, _, ran⟩
    have inside := (Array.getElem?_eq_some_iff.1 (fetch_eq_ok_iff.1 rule)).1
    exact ⟨joins_of_reducing sound healthy inside ran,
      arranged.suffix (popped ▸ List.drop_suffix r.length.toNat c.stack)⟩
  cases replaces_of_reduce reduced with
  | short => exact ⟨faithful, before, arranged⟩
  | stuck runs =>
    obtain ⟨joins, rest⟩ := left runs
    exact ⟨faithful, before, rest.keep joins.keeps⟩
  | @goes r _ _ _ _ _ runs =>
    obtain ⟨joins, rest⟩ := left runs
    obtain ⟨reached, above⟩ := Tidy.placeOf ⟨faithful, before, arranged⟩ r
    rw [runs.popped] at above
    exact ⟨faithful, before, rest.cons joins reached above⟩

/-- A recovery reads on and puts a frame at the lookahead, on what it leaves of the stack. -/
theorem kept_tidy (sound : g.Sound) (h : Host σ V) : Kept g h Tidy where
  readOn tidy read := by
    obtain ⟨_, pulled, same⟩ := bind_eq_ok_iff.1 read
    cases same
    exact tidy.pull sound pulled tidy.arranged
  resume {c _ _ frame below _ _} tidy _ _ resumes tried := by
    obtain rfl | ⟨n, _, _, _, eval, stack, lexer, lookahead⟩ := of_resume tried
    · exact tidy
    · obtain ⟨above, whole, _⟩ := topmost_of_resumption? resumes
      have rest := tidy.arranged.suffix ⟨above, whole.symm⟩
      have joins : c.eval.graph.Joins c.lookahead.origin (c.eval.resuming n).1
          (c.eval.resuming n).2.graph :=
        Graph.joins_allocMany c.eval.graph .null trivial n.attributeCount
      refine ⟨lexer ▸ tidy.faithful, lexer ▸ lookahead ▸ tidy.before, ?_⟩
      rw [eval, stack, lookahead]
      exact rest.cons joins (Nat.le_refl _) rest.before

theorem Tidy.advance (sound : g.Sound) (healthy : c.Sound g) (tidy : c.Tidy)
    {p : Progress (Config σ V)} (result : c.advance g h options = .ok p) : p.state.Tidy := by
  cases acts_of_advance result with
  | stopped => exact tidy
  | lost => exact tidy
  | shift _ _ shifted => exact tidy.shift sound shifted
  | reduce _ _ reduced => exact tidy.reduce sound healthy reduced
  | accept => exact tidy
  | error _ _ failed =>
    exact (kept_tidy sound h).fail ⟨tidy.faithful, tidy.before, tidy.arranged⟩ failed

theorem Reached.tidy (sound : g.Sound) {control : Control} {source : Source} {host : σ}
    (reached : Reached g h options control source host c) : c.Tidy := by
  induction reached with
  | start begun =>
    obtain ⟨_, pulled, same⟩ := bind_eq_ok_iff.1 begun
    cases same
    obtain ⟨delivers, _⟩ := delivers_of_pull sound (Cursor.faithful_start source) pulled
    refine ⟨delivers.leads.faithful, delivers.before, List.nodup_nil, List.pairwise_singleton _ _,
      List.forall_mem_singleton.2 (Nat.le_refl _), List.forall_mem_singleton.2 nofun⟩
  | step reached result ih => exact ih.advance sound (reached.sound sound).1 result

/-- By a rule, `frame` has come in the place of `rhs`. It is where the first of these was, or where
the lookahead is if there is none. Its attributes were new nodes, declared there, when the actions
of the rule were run. -/
structure Puts (g : Grammar) (h : Host σ V) (id : UInt32) (c c' : Config σ V) (rhs : List Frame)
    (frame : Frame) : Prop where
  rule : ∃ r n, g.rules[id.toNat]? = some r ∧ g.nonterminals[r.lhs.toNat]? = some n ∧
    rhs.length = r.length.toNat ∧ frame.attrs.length = n.attributeCount
  replaced : ∃ below, c.stack = rhs.reverse ++ below ∧ c'.stack = frame :: below
  place : frame.origin = (rhs.head?.map Frame.origin).getD c.lookahead.origin
  row : frame.attrs = List.range' c.eval.graph.size frame.attrs.length
  ran : runRule g h id frame.attrs (rhs.map Frame.attrs) { c.eval with
      graph := ⟨c.eval.graph.nodes ++
        Array.replicate frame.attrs.length (.pending ⟨none, [], frame.origin⟩)⟩
      stats := { c.eval.stats with reductions := c.eval.stats.reductions + 1 } } = .ok c'.eval

theorem exists_puts {id : UInt32} (reduced : c.reduce g h id = .ok (.more c')) :
    ∃ rhs frame, c.Puts g h id c' rhs frame := by
  cases replaces_of_reduce reduced with
  | @goes r n base below e target runs goto =>
    obtain ⟨rule, popped, nonterminal, ran⟩ := runs
    have long : r.length.toNat < c.stack.length := by
      rw [← Nat.not_le, ← List.drop_eq_nil_iff, popped]
      exact List.cons_ne_nil base below
    have width : (c.eval.reducing (c.placeOf r) n).1.length = n.attributeCount := by
      rw [reducing_eq, List.length_range']
    refine ⟨(c.stack.take r.length.toNat).reverse, _,
      ⟨r, n, fetch_eq_ok_iff.1 rule, fetch_eq_ok_iff.1 nonterminal, ?_, width⟩,
      ⟨base :: below, ?_, rfl⟩, rfl, ?_, ?_⟩
    · rw [List.length_reverse, List.length_take_of_le (Nat.le_of_lt long)]
    · rw [List.reverse_reverse, ← popped, List.take_append_drop]
    · dsimp only
      rw [width, reducing_eq]
    · dsimp only
      rw [width]
      rwa [reducing_eq] at ran ⊢

end Config

open Config

/-- Frames own their attributes and are in the order of the text. In every state between two steps,
no attribute is named twice on the stack, frames start no earlier than the ones below them and no
later than the lookahead, and the attributes of a frame are where it is. A reduction puts its frame
where the first one that it takes off is, or at the lookahead if it takes none; that is where the
attributes of the frame are declared, and there they stay, whatever follows. -/
theorem frames_own_their_attributes (valid : g.check = .ok ()) {control : Control} {source : Source}
    {host : σ} {c : Config σ V} (reached : Reached g h options control source host c) :
    (c.stack.flatMap Frame.attrs).Nodup ∧
      (c.stack.reverse.Pairwise fun lower upper => lower.origin.pos ≤ upper.origin.pos) ∧
      (∀ f ∈ c.stack, f.origin.pos ≤ c.lookahead.origin.pos) ∧
      (∀ f ∈ c.stack, ∀ id ∈ f.attrs, c.eval.graph.MadeAt f.origin id) ∧
      ∀ a c', c.entry? g = some a → a.kind = .reduce →
        c.advance g h options = .ok (.more c') →
          ∃ rhs frame, c.Puts g h a.aux c' rhs frame ∧
            ∀ n, ∀ id ∈ frame.attrs, (c'.last g h options n).eval.graph.MadeAt frame.origin id := by
  have sound := Grammar.sound_of_check valid
  obtain ⟨distinct, ordered, before, made⟩ := (reached.tidy sound).arranged
  refine ⟨distinct, List.pairwise_reverse.2 ordered, before, made, ?_⟩
  intro a c' entry kind result
  have later : Reached g h options control source host c' := reached.step result
  have reduced : c.reduce g h a.aux = .ok (.more c') := by
    cases acts_of_advance result with
    | reduce entry' _ reduced =>
      cases entry.symm.trans entry'
      exact reduced
    | shift entry' kind' =>
      cases entry.symm.trans entry'
      cases kind.symm.trans kind'
    | error entry' kind' =>
      cases entry.symm.trans entry'
      cases kind.symm.trans kind'
  obtain ⟨rhs, frame, puts⟩ := exists_puts reduced
  refine ⟨rhs, frame, puts, fun n id mem => ?_⟩
  obtain ⟨below, _, stack⟩ := puts.replaced
  obtain ⟨_, run⟩ := last_follows sound (later.sound sound).1 n
  exact run.madeAt ((later.tidy sound).arranged.made frame (stack ▸ List.mem_cons_self) id mem)

section Example

open Samples.Calculator

/-- A term that a recovery has put in the place of an operand starts at the sign behind it, and so
does the product that is made of it. -/
theorem calculator_frames_own_their_attributes : (grammar .hard).check = .ok () ∧
    ∃ c c' rhs, Reached (grammar .hard) host .default .initial (.ofText "1+*2" false)
      (Machine.start false) c ∧
      c.stack = [⟨10, [6], ⟨3, 1, 4⟩⟩, ⟨7, [], ⟨2, 1, 3⟩⟩, ⟨9, [4], ⟨2, 1, 3⟩⟩, ⟨6, [], ⟨1, 1, 2⟩⟩,
        ⟨1, [3], ⟨0, 1, 1⟩⟩, ⟨0, [], ⟨0, 1, 1⟩⟩] ∧
      c.lookahead.origin.pos = 4 ∧ (c.stack.flatMap Frame.attrs).Nodup ∧
      c.Puts (grammar .hard) host 2 c' rhs ⟨9, [7], ⟨2, 1, 3⟩⟩ ∧
      ∀ n, (c'.last (grammar .hard) host .default n).eval.graph.MadeAt ⟨2, 1, 3⟩ 7 := by
  have valid := check_grammar .hard
  have facts : ((Config.start (grammar .hard) host (.ofText "1+*2" false) .initial
      (Machine.start false)).toOption.bind fun c =>
        let c := c.last (grammar .hard) host .default 9
        (c.entry? (grammar .hard)).bind fun a =>
          (c.advance (grammar .hard) host .default).toOption.bind fun p => p.next?.map fun c' =>
            ((a.kind, a.aux), c.lookahead.origin.pos, c.stack, c'.stack.head?)) =
        some ((.reduce, 2), 4,
          [⟨10, [6], ⟨3, 1, 4⟩⟩, ⟨7, [], ⟨2, 1, 3⟩⟩, ⟨9, [4], ⟨2, 1, 3⟩⟩, ⟨6, [], ⟨1, 1, 2⟩⟩,
            ⟨1, [3], ⟨0, 1, 1⟩⟩, ⟨0, [], ⟨0, 1, 1⟩⟩],
          some ⟨9, [7], ⟨2, 1, 3⟩⟩) := by
    decide +kernel
  obtain ⟨c, begun, facts⟩ := Option.bind_eq_some_iff.1 facts
  obtain ⟨a, entry, facts⟩ := Option.bind_eq_some_iff.1 facts
  obtain ⟨p, result, facts⟩ := Option.bind_eq_some_iff.1 facts
  obtain ⟨c', on, found⟩ := Option.map_eq_some_iff.1 facts
  simp only [Prod.mk.injEq] at found
  obtain ⟨⟨kind, rule⟩, lookahead, stack, top⟩ := found
  obtain rfl := Progress.eq_more on
  have started : Reached (grammar .hard) host .default .initial (.ofText "1+*2" false)
    (Machine.start false) c := .start (eq_ok_of_toOption begun)
  have reached := started.last 9
  obtain ⟨distinct, _, _, _, put⟩ := frames_own_their_attributes valid reached
  obtain ⟨rhs, frame, puts, later⟩ := put a c' entry kind (eq_ok_of_toOption result)
  obtain ⟨below, _, pushed⟩ := puts.replaced
  rw [pushed, List.head?_cons, Option.some.injEq] at top
  subst top
  rw [rule] at puts
  exact ⟨valid, _, c', rhs, reached, stack, lookahead, distinct, puts,
    fun n => later n 7 (List.mem_singleton_self 7)⟩

end Example

end GrammarMachine
